import AimDb.Session.Client
import AimDb.Transition.Runs
import Mathlib.Data.List.FinRange
import Mathlib.Logic.Function.Basic

/-!
# The TCP sockets of the embedded adapter

A dialer and its clones share one socket, a listener has `N` of them.  A socket moves from its slot
into the guard of a future, from there into a stream, and back when either is dropped.  What the
network answers to a poll is up to the environment; `none` is pending.
-/

namespace AimDb.Embassy

open Session.Client (TransportError)

inductive SlotId (Dialer : Type) (N : ℕ)
  | dialer (dialer : Dialer)
  | listener (i : Fin N)
  deriving DecidableEq

variable {Dialer Waker : Type} {N : ℕ}

abbrev TcpSocket := SlotId

structure TcpSocketSlot (Dialer : Type) (N : ℕ) (Waker : Type) where
  socket : Option (TcpSocket Dialer N)
  waker : Option Waker

/-- Where `connect` awaits. -/
inductive Dialing (Dialer : Type) (N : ℕ)
  | resolving
  | connecting (guard : TcpSocket Dialer N)
  /-- The connect failed, and `yield_now` is pending. -/
  | yielding

/-- A future of `connect`, of a dialer or one of its clones. -/
structure Connect (Dialer : Type) (N : ℕ) where
  dialer : Dialer
  stage : Dialing Dialer N

inductive Accepting (Dialer : Type) (N : ℕ) (Waker : Type)
  | armed
  /-- `acquire` was last polled with the waker. -/
  | parked (waker : Waker)
  | listening (guard : TcpSocket Dialer N)

structure PendingAccept (Dialer : Type) (N : ℕ) (Waker : Type) where
  id : ℕ
  stage : Accepting Dialer N Waker

structure EmbassyTcpStream (Dialer : Type) (N : ℕ) where
  socket : TcpSocket Dialer N
  recycler : SlotId Dialer N

structure EmbassyNet (Dialer : Type) (N : ℕ) (Waker : Type) where
  slots : SlotId Dialer N → TcpSocketSlot Dialer N Waker := fun slot => ⟨some slot, none⟩
  connects : ℕ → Option (Connect Dialer N) := fun _ => none
  streams : ℕ → Option (EmbassyTcpStream Dialer N) := fun _ => none
  pending : Fin N → Option (PendingAccept Dialer N Waker) := fun _ => none
  /-- The future of `accept`, if there is one, and whether it was polled. -/
  accept : Option Bool := none
  /-- Names the next future or stream. -/
  fresh : ℕ := 0

inductive Event (Dialer : Type) (N : ℕ) (Waker : Type)
  | aborted (socket : TcpSocket Dialer N)
  /-- `put` found the slot occupied. -/
  | occupied (slot : SlotId Dialer N)
  | woken (waker : Waker)
  | connected (id : ℕ) (result : Except TransportError ℕ)
  | accepted (i : Fin N) (result : Except TransportError ℕ)

inductive Action (Dialer : Type) (N : ℕ) (Waker : Type)
  | connect (dialer : Dialer)
  /-- What `resolve` and the connect of the socket answer, where they are awaited. -/
  | pollConnect (id : ℕ) (resolved connected : Option Bool)
  | dropConnect (id : ℕ)
  | accept
  | pollAccept (waker : Waker) (answer : Fin N → Option Bool)
  | dropAccept
  | dropStream (id : ℕ)

namespace EmbassyNet

variable [DecidableEq Dialer] (s : EmbassyNet Dialer N Waker)

def setSlot (slot : SlotId Dialer N) (value : TcpSocketSlot Dialer N Waker) :
    EmbassyNet Dialer N Waker :=
  { s with slots := Function.update s.slots slot value }

theorem setSlot_slots (slot : SlotId Dialer N) (value : TcpSocketSlot Dialer N Waker) :
    (s.setSlot slot value).slots = Function.update s.slots slot value := rfl

def take (slot : SlotId Dialer N) : EmbassyNet Dialer N Waker :=
  s.setSlot slot { s.slots slot with socket := none }

def put (slot : SlotId Dialer N) (socket : TcpSocket Dialer N) :
    EmbassyNet Dialer N Waker × List (Event Dialer N Waker) :=
  (s.setSlot slot ⟨some ((s.slots slot).socket.getD socket), none⟩,
    (if (s.slots slot).socket.isSome then [.occupied slot] else []) ++
      (s.slots slot).waker.toList.map .woken)

def release (slot : SlotId Dialer N) (socket : TcpSocket Dialer N) :
    EmbassyNet Dialer N Waker × List (Event Dialer N Waker) :=
  ((s.put slot socket).1, .aborted socket :: (s.put slot socket).2)

def setConnect (id : ℕ) (value : Option (Connect Dialer N)) : EmbassyNet Dialer N Waker :=
  { s with connects := Function.update s.connects id value }

omit [DecidableEq Dialer] in
theorem setConnect_connects (id : ℕ) (value : Option (Connect Dialer N)) :
    (s.setConnect id value).connects = Function.update s.connects id value := rfl

def stream (socket : TcpSocket Dialer N) (recycler : SlotId Dialer N) :
    EmbassyNet Dialer N Waker :=
  { s with
    streams := Function.update s.streams s.fresh (some ⟨socket, recycler⟩),
    fresh := s.fresh + 1 }

/-- The connect of the socket is polled, which the guard of the future holds. -/
def finishConnect (id : ℕ) (dialer : Dialer) (socket : TcpSocket Dialer N) :
    Option Bool → EmbassyNet Dialer N Waker × List (Event Dialer N Waker)
  | none => (s, [])
  | some true =>
      ((s.setConnect id none).stream socket (.dialer dialer), [.connected id (.ok s.fresh)])
  | some false => (s.setConnect id (some ⟨dialer, .yielding⟩)).release (.dialer dialer) socket

def startConnect (id : ℕ) (dialer : Dialer) (connected : Option Bool) :
    EmbassyNet Dialer N Waker × List (Event Dialer N Waker) :=
  match (s.slots (.dialer dialer)).socket with
  | none => (s.setConnect id none, [.connected id (.error .busy)])
  | some socket =>
      let taken := (s.take (.dialer dialer)).setConnect id (some ⟨dialer, .connecting socket⟩)
      let (after, events) := taken.finishConnect id dialer socket connected
      (after, .aborted socket :: events)

def pollConnect (id : ℕ) (connect : Connect Dialer N) (resolved connected : Option Bool) :
    EmbassyNet Dialer N Waker × List (Event Dialer N Waker) :=
  match connect.stage with
  | .resolving =>
      match resolved with
      | none => (s, [])
      | some false => (s.setConnect id none, [.connected id (.error .io)])
      | some true => s.startConnect id connect.dialer connected
  | .connecting guard => s.finishConnect id connect.dialer guard connected
  | .yielding => (s.setConnect id none, [.connected id (.error .io)])

def dropConnect (id : ℕ) (connect : Connect Dialer N) :
    EmbassyNet Dialer N Waker × List (Event Dialer N Waker) :=
  match connect.stage with
  | .connecting guard => (s.setConnect id none).release (.dialer connect.dialer) guard
  | _ => (s.setConnect id none, [])

def setPending (i : Fin N) (value : Option (PendingAccept Dialer N Waker)) :
    EmbassyNet Dialer N Waker :=
  { s with pending := Function.update s.pending i value }

omit [DecidableEq Dialer] in
theorem setPending_pending (i : Fin N) (value : Option (PendingAccept Dialer N Waker)) :
    (s.setPending i value).pending = Function.update s.pending i value := rfl

/-- Arm slot `i` unless its accept is already in flight. -/
def arm (i : Fin N) : EmbassyNet Dialer N Waker :=
  match s.pending i with
  | some _ => s
  | none => { s.setPending i (some ⟨s.fresh, .armed⟩) with fresh := s.fresh + 1 }

/-- The accept of the socket is polled, which the guard of a stored accept holds; the last
component tells whether the future of `accept` returns. -/
def finishAccept (i : Fin N) (socket : TcpSocket Dialer N) :
    Option Bool → EmbassyNet Dialer N Waker × List (Event Dialer N Waker) × Bool
  | none => (s, [], false)
  | some true =>
      ((s.setPending i none).stream socket (.listener i), [.accepted i (.ok s.fresh)], true)
  | some false =>
      let (after, events) := (s.setPending i none).release (.listener i) socket
      (after, events ++ [.accepted i (.error .io)], true)

def pollPending (waker : Waker) (answer : Fin N → Option Bool) (i : Fin N) :
    EmbassyNet Dialer N Waker × List (Event Dialer N Waker) × Bool :=
  match s.pending i with
  | none => (s, [], false)
  | some ⟨_, .listening guard⟩ => s.finishAccept i guard (answer i)
  | some ⟨id, _⟩ =>
      match (s.slots (.listener i)).socket with
      | none =>
          ((s.setSlot (.listener i) ⟨none, some waker⟩).setPending i
            (some ⟨id, .parked waker⟩), [], false)
      | some socket =>
          let taken := (s.take (.listener i)).setPending i (some ⟨id, .listening socket⟩)
          let (after, events, returns) := taken.finishAccept i socket (answer i)
          (after, .aborted socket :: events, returns)

/-- The loop of `accept` returns with the first that is ready. -/
def pollAll (waker : Waker) (answer : Fin N → Option Bool) :
    List (Fin N) → EmbassyNet Dialer N Waker →
      EmbassyNet Dialer N Waker × List (Event Dialer N Waker)
  | [], s => (s, [])
  | i :: rest, s =>
      match s.pollPending waker answer i with
      | (after, events, true) => ({ after with accept := none }, events)
      | (after, events, false) =>
          let (last, more) := pollAll waker answer rest after
          (last, events ++ more)

def pollAccept (polled : Bool) (waker : Waker) (answer : Fin N → Option Bool) :
    EmbassyNet Dialer N Waker × List (Event Dialer N Waker) :=
  let armed := if polled then s else (List.finRange N).foldl arm s
  pollAll waker answer (List.finRange N) { armed with accept := some true }

end EmbassyNet

variable [DecidableEq Dialer]

def step (s : EmbassyNet Dialer N Waker) :
    Action Dialer N Waker → Option (EmbassyNet Dialer N Waker × List (Event Dialer N Waker))
  | .connect dialer =>
      some ({ s.setConnect s.fresh (some ⟨dialer, .resolving⟩) with fresh := s.fresh + 1 }, [])
  | .pollConnect id resolved connected =>
      (s.connects id).map fun connect => s.pollConnect id connect resolved connected
  | .dropConnect id => (s.connects id).map (s.dropConnect id)
  | .accept => if s.accept.isSome then none else some ({ s with accept := some false }, [])
  | .pollAccept waker answer => s.accept.map fun polled => s.pollAccept polled waker answer
  | .dropAccept => s.accept.map fun _ => ({ s with accept := none }, [])
  | .dropStream id =>
      (s.streams id).map fun stream =>
        EmbassyNet.release { s with streams := Function.update s.streams id none } stream.recycler
          stream.socket

end AimDb.Embassy
