import AimDb.Embassy.TcpPool
import AimDb.Places.Sole

/-!
# Every socket is in one place

What a function holds in its hand between two places counts as a place of its own, so each write to
the state exchanges the hand with one place.
-/

namespace AimDb.Embassy

open Places

variable {Dialer Waker : Type} {N : ℕ}

inductive Place (Dialer : Type) (N : ℕ)
  | slot (slot : SlotId Dialer N)
  /-- The guard of a future of `connect`. -/
  | connect (id : ℕ)
  | pending (i : Fin N)
  | stream (id : ℕ)

def Connect.socket (connect : Connect Dialer N) : Option (TcpSocket Dialer N) :=
  match connect.stage with
  | .connecting guard => some guard
  | _ => none

def PendingAccept.socket (accept : PendingAccept Dialer N Waker) : Option (TcpSocket Dialer N) :=
  match accept.stage with
  | .listening guard => some guard
  | _ => none

variable (s : EmbassyNet Dialer N Waker)

def EmbassyNet.socketAt : Place Dialer N → Option (TcpSocket Dialer N)
  | .slot slot => (s.slots slot).socket
  | .connect id => (s.connects id).bind Connect.socket
  | .pending i => (s.pending i).bind PendingAccept.socket
  | .stream id => (s.streams id).map EmbassyTcpStream.socket

def EmbassyNet.held (hand : Option (TcpSocket Dialer N)) :
    Option (Place Dialer N) → Option (TcpSocket Dialer N)
  | none => hand
  | some place => s.socketAt place

def Parked (slot : TcpSocketSlot Dialer N Waker) (pending : Option (PendingAccept Dialer N Waker)) :
    Prop :=
  ∀ id waker, pending = some ⟨id, .parked waker⟩ → slot.socket = none →
    slot.waker = some waker

structure Kept (s : EmbassyNet Dialer N Waker) (hand : Option (TcpSocket Dialer N)) : Prop where
  sole : Sole (s.held hand)
  slots : ∀ slot socket, (s.slots slot).socket = some socket → socket = slot
  connects : ∀ id connect socket, s.connects id = some connect →
    connect.socket = some socket →
    socket = .dialer connect.dialer
  pending : ∀ i accept socket, s.pending i = some accept → accept.socket = some socket →
    socket = .listener i
  streams : ∀ id stream, s.streams id = some stream → stream.socket = stream.recycler
  fresh : ∀ id, s.fresh ≤ id → s.connects id = none ∧ s.streams id = none
  parked : ∀ i, Parked (s.slots (.listener i)) (s.pending i)

variable {s} {hand : Option (TcpSocket Dialer N)}

theorem kept_start : Kept ({} : EmbassyNet Dialer N Waker) none where
  sole slot := by
    refine ⟨some (.slot slot), rfl, fun place isHeld => ?_⟩
    cases place with
    | none => cases isHeld
    | some place =>
        cases place with
        | slot other =>
            cases isHeld
            rfl
        | connect id => cases isHeld
        | pending i => cases isHeld
        | stream id => cases isHeld
  slots _ _ isHeld := (Option.some.inj isHeld).symm
  connects _ _ _ isConnect := by cases isConnect
  pending _ _ _ isPending := by cases isPending
  streams _ _ isStream := by cases isStream
  fresh _ _ := ⟨rfl, rfl⟩
  parked _ _ _ isParked := by cases isParked

theorem Kept.write {after : EmbassyNet Dialer N Waker} (kept : Kept s hand)
    (place : Place Dialer N) (gave : after.socketAt place = hand)
    (rest : ∀ other, other ≠ place → after.socketAt other = s.socketAt other) :
    Sole (after.held (s.socketAt place)) := by
  apply kept.sole.exchange (some place) none gave rfl
  intro other notHere notThere
  cases other with
  | none => exact absurd rfl notThere
  | some other => exact rest other fun same => notHere (congrArg some same)

theorem Kept.setConnect (kept : Kept s hand) {id : ℕ} {value : Option (Connect Dialer N)}
    (gave : value.bind Connect.socket = hand)
    (homed : ∀ connect socket, value = some connect → connect.socket = some socket →
      socket = .dialer connect.dialer)
    (known : value ≠ none → id < s.fresh) :
    Kept (s.setConnect id value) ((s.connects id).bind Connect.socket) where
  sole := by
    apply kept.write (.connect id)
    · change (Function.update s.connects id value id).bind Connect.socket = hand
      rw [Function.update_self, gave]
    · intro place differs
      cases place with
      | connect other =>
          have unchanged : (s.setConnect id value).connects other = s.connects other :=
            Function.update_of_ne (fun same => differs (congrArg Place.connect same)) ..
          exact congrArg (Option.bind · Connect.socket) unchanged
      | slot slot => rfl
      | pending i => rfl
      | stream id => rfl
  slots := kept.slots
  connects other connect socket isConnect := by
    by_cases same : other = id
    · subst same
      rw [EmbassyNet.setConnect_connects, Function.update_self] at isConnect
      exact homed connect socket isConnect
    · rw [EmbassyNet.setConnect_connects, Function.update_of_ne same] at isConnect
      exact kept.connects other connect socket isConnect
  pending := kept.pending
  streams := kept.streams
  fresh other isFresh := by
    refine ⟨?_, (kept.fresh other isFresh).2⟩
    by_cases same : other = id
    · subst same
      rw [EmbassyNet.setConnect_connects, Function.update_self]
      by_contra isSome
      exact Nat.not_lt_of_le isFresh (known isSome)
    · rw [EmbassyNet.setConnect_connects, Function.update_of_ne same]
      exact (kept.fresh other isFresh).1
  parked := kept.parked

theorem Kept.setPending (kept : Kept s hand) {i : Fin N}
    {value : Option (PendingAccept Dialer N Waker)}
    (gave : value.bind PendingAccept.socket = hand)
    (homed : ∀ accept socket, value = some accept → accept.socket = some socket →
      socket = .listener i)
    (parked : Parked (s.slots (.listener i)) value) :
    Kept (s.setPending i value) ((s.pending i).bind PendingAccept.socket) where
  sole := by
    apply kept.write (.pending i)
    · change (Function.update s.pending i value i).bind PendingAccept.socket = hand
      rw [Function.update_self, gave]
    · intro place differs
      cases place with
      | pending other =>
          have unchanged : (s.setPending i value).pending other = s.pending other :=
            Function.update_of_ne (fun same => differs (congrArg Place.pending same)) ..
          exact congrArg (Option.bind · PendingAccept.socket) unchanged
      | slot slot => rfl
      | connect id => rfl
      | stream id => rfl
  slots := kept.slots
  connects := kept.connects
  pending other accept socket isPending := by
    by_cases same : other = i
    · subst same
      rw [EmbassyNet.setPending_pending, Function.update_self] at isPending
      exact homed accept socket isPending
    · rw [EmbassyNet.setPending_pending, Function.update_of_ne same] at isPending
      exact kept.pending other accept socket isPending
  streams := kept.streams
  fresh := kept.fresh
  parked other := by
    by_cases same : other = i
    · subst same
      rw [EmbassyNet.setPending_pending, Function.update_self]
      exact parked
    · rw [EmbassyNet.setPending_pending, Function.update_of_ne same]
      exact kept.parked other

theorem Kept.setStream (kept : Kept s hand) {id fresh : ℕ}
    {value : Option (EmbassyTcpStream Dialer N)}
    (gave : value.map EmbassyTcpStream.socket = hand)
    (homed : ∀ stream, value = some stream → stream.socket = stream.recycler)
    (later : s.fresh ≤ fresh) (known : value ≠ none → id < fresh) :
    Kept { s with streams := Function.update s.streams id value, fresh }
      ((s.streams id).map EmbassyTcpStream.socket) where
  sole := by
    apply kept.write (.stream id)
    · change (Function.update s.streams id value id).map EmbassyTcpStream.socket = hand
      rw [Function.update_self, gave]
    · intro place differs
      cases place with
      | stream other =>
          have unchanged : Function.update s.streams id value other = s.streams other :=
            Function.update_of_ne (fun same => differs (congrArg Place.stream same)) ..
          exact congrArg (Option.map EmbassyTcpStream.socket) unchanged
      | slot slot => rfl
      | connect id => rfl
      | pending i => rfl
  slots := kept.slots
  connects := kept.connects
  pending := kept.pending
  streams other stream isStream := by
    dsimp only at isStream
    by_cases same : other = id
    · subst same
      rw [Function.update_self] at isStream
      exact homed stream isStream
    · rw [Function.update_of_ne same] at isStream
      exact kept.streams other stream isStream
  fresh other isFresh := by
    dsimp only at isFresh ⊢
    have before := kept.fresh other (Nat.le_trans later isFresh)
    refine ⟨before.1, ?_⟩
    by_cases same : other = id
    · subst same
      rw [Function.update_self]
      by_contra isSome
      exact Nat.not_lt_of_le isFresh (known isSome)
    · rw [Function.update_of_ne same]
      exact before.2
  parked := kept.parked

theorem Kept.setAccept (kept : Kept s hand) (accept : Option Bool) :
    Kept { s with accept } hand :=
  ⟨kept.sole, kept.slots, kept.connects, kept.pending, kept.streams, kept.fresh, kept.parked⟩

theorem Kept.setFresh (kept : Kept s hand) {fresh : ℕ} (later : s.fresh ≤ fresh) :
    Kept { s with fresh } hand :=
  ⟨kept.sole, kept.slots, kept.connects, kept.pending, kept.streams,
    fun id isFresh => kept.fresh id (Nat.le_trans later isFresh), kept.parked⟩

theorem Kept.stream {socket : TcpSocket Dialer N} {recycler : SlotId Dialer N}
    (kept : Kept s (some socket)) (homed : socket = recycler) :
    Kept (s.stream socket recycler) none := by
  have new := (kept.fresh s.fresh (Nat.le_refl _)).2
  have made : Kept (s.stream socket recycler)
      ((s.streams s.fresh).map EmbassyTcpStream.socket) := by
    apply kept.setStream rfl _ (Nat.le_succ _) (fun _ => Nat.lt_succ_self _)
    rintro stream ⟨⟩
    exact homed
  rwa [new] at made

theorem Kept.empty {slot : SlotId Dialer N} (kept : Kept s (some slot)) :
    (s.slots slot).socket = none := by
  cases found : (s.slots slot).socket with
  | none => rfl
  | some socket =>
      have homed := kept.slots slot socket found
      subst homed
      have same := kept.sole.unique (show s.held _ (some (.slot socket)) = some socket from found)
        (show s.held (some socket) none = some socket from rfl)
      cases same

variable [DecidableEq Dialer]

theorem Kept.setSlot (kept : Kept s hand) {slot : SlotId Dialer N}
    {value : TcpSocketSlot Dialer N Waker} (gave : value.socket = hand)
    (homed : ∀ socket, value.socket = some socket → socket = slot)
    (parked : ∀ i, slot = .listener i → Parked value (s.pending i)) :
    Kept (s.setSlot slot value) (s.slots slot).socket where
  sole := by
    apply kept.write (.slot slot)
    · change (Function.update s.slots slot value slot).socket = hand
      rw [Function.update_self, gave]
    · intro place differs
      cases place with
      | slot other =>
          have unchanged : (s.setSlot slot value).slots other = s.slots other :=
            Function.update_of_ne (fun same => differs (congrArg Place.slot same)) ..
          exact congrArg TcpSocketSlot.socket unchanged
      | connect id => rfl
      | pending i => rfl
      | stream id => rfl
  slots other socket isSocket := by
    by_cases same : other = slot
    · subst same
      rw [EmbassyNet.setSlot_slots, Function.update_self] at isSocket
      exact homed socket isSocket
    · rw [EmbassyNet.setSlot_slots, Function.update_of_ne same] at isSocket
      exact kept.slots other socket isSocket
  connects := kept.connects
  pending := kept.pending
  streams := kept.streams
  fresh := kept.fresh
  parked i := by
    by_cases same : .listener i = slot
    · subst same
      rw [EmbassyNet.setSlot_slots, Function.update_self]
      exact parked i rfl
    · rw [EmbassyNet.setSlot_slots, Function.update_of_ne same]
      exact kept.parked i

theorem Kept.take (kept : Kept s none) {slot : SlotId Dialer N} {socket : TcpSocket Dialer N}
    (isSocket : (s.slots slot).socket = some socket)
    (unparked : ∀ i id waker, slot = .listener i →
      s.pending i ≠ some ⟨id, .parked waker⟩) :
    Kept (s.take slot) (some socket) := by
  rw [← isSocket]
  apply kept.setSlot rfl
  · rintro _ ⟨⟩
  · intro i isSlot id waker isParked
    exact absurd isParked (unparked i id waker isSlot)

theorem Kept.release {slot : SlotId Dialer N} (kept : Kept s (some slot)) :
    Kept (s.release slot slot).1 none ∧ (s.release slot slot).2 =
      .aborted slot :: (s.slots slot).waker.toList.map .woken := by
  have empty := kept.empty
  constructor
  · have put : Kept (s.put slot slot).1 (s.slots slot).socket := by
      apply kept.setSlot
      · rw [empty]
        rfl
      · rw [empty]
        rintro _ ⟨⟩
        rfl
      · rintro i rfl id waker _ isEmpty
        cases isEmpty
    rwa [empty] at put
  · rw [EmbassyNet.release, EmbassyNet.put, empty]
    rfl

/-- No `put` found its slot occupied. -/
def Unoccupied (events : List (Event Dialer N Waker)) : Prop := ∀ slot, .occupied slot ∉ events

theorem Kept.unoccupied {slot : SlotId Dialer N} (kept : Kept s (some slot)) :
    Unoccupied (s.release slot slot).2 := by
  intro other
  rw [kept.release.2]
  simp

omit [DecidableEq Dialer] in
theorem Kept.known {id : ℕ} {connect : Connect Dialer N} (kept : Kept s hand)
    (isConnect : s.connects id = some connect) : id < s.fresh := by
  by_contra fresh
  have none := (kept.fresh id (Nat.le_of_not_lt fresh)).1
  rw [isConnect] at none
  cases none

theorem Kept.finishConnect {id : ℕ} {dialer : Dialer} {socket : TcpSocket Dialer N}
    (kept : Kept s none) (isConnect : s.connects id = some ⟨dialer, .connecting socket⟩)
    (connected : Option Bool) :
    Kept (s.finishConnect id dialer socket connected).1 none ∧
      Unoccupied (s.finishConnect id dialer socket connected).2 := by
  have homed := kept.connects id _ socket isConnect rfl
  dsimp only at homed
  subst homed
  have moved : ∀ value : Option (Connect Dialer N), value.bind Connect.socket = none →
      Kept (s.setConnect id value) (some (.dialer dialer)) := by
    intro value gave
    have set := kept.setConnect gave (by
      rintro connect socket rfl isSocket
      rw [Option.bind_some, isSocket] at gave
      cases gave) (fun _ => kept.known isConnect)
    rwa [isConnect] at set
  cases connected with
  | none => exact ⟨kept, fun _ => List.not_mem_nil⟩
  | some result =>
      cases result with
      | true =>
          exact ⟨(moved none rfl).stream rfl, fun _ mem => by cases List.mem_singleton.mp mem⟩
      | false =>
          have yields := moved (some ⟨dialer, .yielding⟩) rfl
          exact ⟨yields.release.1, yields.unoccupied⟩

omit [DecidableEq Dialer] in
theorem Kept.endConnect {id : ℕ} {connect : Connect Dialer N} (kept : Kept s none)
    (isConnect : s.connects id = some connect) (idle : connect.socket = none) :
    Kept (s.setConnect id none) none := by
  have ended : Kept (s.setConnect id none) ((s.connects id).bind Connect.socket) :=
    kept.setConnect rfl (by rintro _ _ ⟨⟩) (absurd rfl)
  rwa [isConnect, Option.bind_some, idle] at ended

theorem Kept.startConnect {id : ℕ} {dialer : Dialer} (kept : Kept s none)
    (isConnect : s.connects id = some ⟨dialer, .resolving⟩) (connected : Option Bool) :
    Kept (s.startConnect id dialer connected).1 none ∧
      Unoccupied (s.startConnect id dialer connected).2 := by
  unfold EmbassyNet.startConnect
  cases isSocket : (s.slots (.dialer dialer)).socket with
  | none =>
      refine ⟨kept.endConnect isConnect rfl, fun _ mem => ?_⟩
      cases List.mem_singleton.mp mem
  | some socket =>
      have homed := kept.slots _ _ isSocket
      have taken := kept.take isSocket (by rintro _ _ _ ⟨⟩)
      have guarded : Kept
          ((s.take (.dialer dialer)).setConnect id (some ⟨dialer, .connecting socket⟩))
          ((s.connects id).bind Connect.socket) := by
        apply taken.setConnect rfl _ (fun _ => kept.known isConnect)
        rintro _ _ ⟨⟩ ⟨⟩
        exact homed
      rw [isConnect] at guarded
      obtain ⟨finished, unoccupied⟩ :=
        guarded.finishConnect (Function.update_self ..) connected
      refine ⟨finished, fun slot mem => ?_⟩
      rcases List.mem_cons.mp mem with isAborted | mem
      · cases isAborted
      · exact unoccupied slot mem

theorem Kept.pollConnect {id : ℕ} {connect : Connect Dialer N} (kept : Kept s none)
    (isConnect : s.connects id = some connect) (resolved connected : Option Bool) :
    Kept (s.pollConnect id connect resolved connected).1 none ∧
      Unoccupied (s.pollConnect id connect resolved connected).2 := by
  obtain ⟨dialer, stage⟩ := connect
  cases stage with
  | resolving =>
      cases resolved with
      | none => exact ⟨kept, fun _ => List.not_mem_nil⟩
      | some found =>
          cases found with
          | false =>
              refine ⟨kept.endConnect isConnect rfl, fun _ mem => ?_⟩
              cases List.mem_singleton.mp mem
          | true => exact kept.startConnect isConnect connected
  | connecting guard => exact kept.finishConnect isConnect connected
  | yielding =>
      refine ⟨kept.endConnect isConnect rfl, fun _ mem => ?_⟩
      cases List.mem_singleton.mp mem

theorem Kept.dropConnect {id : ℕ} {connect : Connect Dialer N} (kept : Kept s none)
    (isConnect : s.connects id = some connect) :
    Kept (s.dropConnect id connect).1 none ∧ Unoccupied (s.dropConnect id connect).2 := by
  obtain ⟨dialer, stage⟩ := connect
  cases stage with
  | resolving => exact ⟨kept.endConnect isConnect rfl, fun _ => List.not_mem_nil⟩
  | yielding => exact ⟨kept.endConnect isConnect rfl, fun _ => List.not_mem_nil⟩
  | connecting guard =>
      have homed := kept.connects id _ guard isConnect rfl
      dsimp only at homed
      subst homed
      have dropped : Kept (s.setConnect id none) ((s.connects id).bind Connect.socket) :=
        kept.setConnect rfl (by rintro _ _ ⟨⟩) (absurd rfl)
      rw [isConnect] at dropped
      have dropped : Kept (s.setConnect id none) (some (.dialer dialer)) := dropped
      exact ⟨dropped.release.1, dropped.unoccupied⟩

end AimDb.Embassy
