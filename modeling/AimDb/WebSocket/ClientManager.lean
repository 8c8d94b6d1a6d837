import AimDb.WebSocket.Auth
import AimDb.Session.Messages
import AimDb.Transition.Runs
import Mathlib.Logic.Function.Basic

/-!
# The broadcast bus

`ClientManager` as a machine.  Broadcasts run side by side: taking an entry's count of
dropped updates, trying to send and restoring the count are steps of their own, between
which other broadcasts and the subscribers move.  The iterator over the entries yields
each at most once, in any order, and holds a lock on the one it yielded, so no entry is
removed while a broadcast works on it.
-/

namespace AimDb.WebSocket

open Session (Payload Stamp)
open Session.TopicMatch Transition

/-- A tagged update; the code counts `skipped` in a `u64`. -/
structure SubUpdate where
  topic : String
  data : Payload
  ts : Stamp
  skipped : ℕ
  deriving DecidableEq, Repr

/-- A queued update with the record it is of.  The code keeps no such tag and no step
reads it. -/
structure Queued where
  record : ℕ
  update : SubUpdate
  deriving DecidableEq, Repr

structure Message where
  topic : String
  recordIndex : ℕ
  payload : Payload
  ts : Stamp
  deriving DecidableEq, Repr

structure SubEntry where
  pattern : String
  dropped : ℕ := 0
  recordPerms : RecordsBits
  deriving DecidableEq, Repr

def SubEntry.accepts (entry : SubEntry) (topic : String) (recordIndex : ℕ) : Bool :=
  topicMatches entry.pattern topic && entry.recordPerms.isAllowed recordIndex

/-- The stream of a subscription: the receiver of its channel and the guard of its
entry.  Dropping it drops both, one after the other. -/
structure SubStream where
  queue : List Queued := []
  dropping : Bool := false
  receiverGone : Bool := false
  guardGone : Bool := false
  deriving DecidableEq, Repr

/-- What a broadcast holds between two of its steps. -/
inductive Hand where
  | empty
  | carrying (sub : ℕ) (carried : ℕ)
  | restoring (sub : ℕ) (amount : ℕ)
  deriving DecidableEq, Repr

def Hand.entry : Hand → Option ℕ
  | .empty => none
  | .carrying sub _ => some sub
  | .restoring sub _ => some sub

/-- A broadcast under way; subscriptions from `limit` on came after it began. -/
structure Broadcast where
  message : Message
  limit : ℕ
  visited : List ℕ := []
  hand : Hand := .empty
  dead : List ℕ := []
  iterated : Bool := false
  deriving DecidableEq, Repr

structure ClientManager where
  subCapacity : ℕ
  subs : ℕ → Option SubEntry := fun _ => none
  streams : ℕ → Option SubStream := fun _ => none
  nextSub : ℕ := 1
  broadcasts : ℕ → Option Broadcast := fun _ => none
  begun : ℕ := 0

namespace ClientManager

def new (subCapacity : ℕ) : ClientManager := { subCapacity := max subCapacity 1 }

inductive Input where
  | subscribe (pattern : String) (recordPerms : RecordsBits)
  | broadcast (message : Message)
  | visit (broadcast sub : ℕ)
  | trySend (broadcast : ℕ)
  | restore (broadcast : ℕ)
  | endIteration (broadcast : ℕ)
  | prune (broadcast : ℕ)
  | finish (broadcast : ℕ)
  | poll (sub : ℕ)
  | drop (sub : ℕ)
  | dropReceiver (sub : ℕ)
  | dropGuard (sub : ℕ)
  deriving DecidableEq, Repr

inductive Record where
  | subscribed (sub : ℕ) (pattern : String) (recordPerms : RecordsBits)
  | reached (broadcast sub : ℕ) (message : Message)
  | yielded (sub : ℕ) (item : Queued)
  deriving DecidableEq, Repr

variable (s : ClientManager)

def setEntry (sub : ℕ) (entry : Option SubEntry) : ClientManager :=
  { s with subs := Function.update s.subs sub entry }

def setStream (sub : ℕ) (stream : SubStream) : ClientManager :=
  { s with streams := Function.update s.streams sub (some stream) }

def setBroadcast (broadcast : ℕ) (state : Option Broadcast) : ClientManager :=
  { s with broadcasts := Function.update s.broadcasts broadcast state }

/-- No broadcast holds the lock of an entry. -/
def Unlocked (sub : ℕ) : Prop :=
  ∀ b < s.begun, (s.broadcasts b).bind (·.hand.entry) ≠ some sub

instance (sub : ℕ) : Decidable (s.Unlocked sub) :=
  inferInstanceAs (Decidable (∀ b < s.begun, (s.broadcasts b).bind (·.hand.entry) ≠ some sub))

def subscribe (pattern : String) (recordPerms : RecordsBits) : ClientManager × List Record :=
  let id := s.nextSub
  ({ (s.setEntry id (some { pattern, recordPerms })).setStream id {} with nextSub := id + 1 },
    [.subscribed id pattern recordPerms])

def begin (message : Message) : ClientManager × List Record :=
  ({ s.setBroadcast s.begun (some { message, limit := s.nextSub }) with begun := s.begun + 1 }, [])

/-- The iterator yields an entry: skip it, or take its count. -/
def visit (b sub : ℕ) : Option (ClientManager × List Record) :=
  match s.broadcasts b, s.subs sub with
  | some call, some entry =>
      if call.hand = .empty ∧ call.iterated = false ∧ sub ∉ call.visited then
        let call := { call with visited := sub :: call.visited }
        let reached := [Record.reached b sub call.message]
        if entry.accepts call.message.topic call.message.recordIndex then
          some (((s.setEntry sub (some { entry with dropped := 0 })).setBroadcast b
            (some { call with hand := .carrying sub entry.dropped })), reached)
        else some (s.setBroadcast b (some call), reached)
      else none
  | _, _ => none

def update (message : Message) (carried : ℕ) : Queued :=
  ⟨message.recordIndex, ⟨message.topic, message.payload, message.ts, carried⟩⟩

def trySend (b : ℕ) : Option (ClientManager × List Record) :=
  match s.broadcasts b with
  | some call =>
      match call.hand with
      | .carrying sub carried =>
          match s.streams sub with
          | some stream =>
              if stream.receiverGone then
                some (s.setBroadcast b
                  (some { call with hand := .empty, dead := call.dead ++ [sub] }), [])
              else if s.subCapacity ≤ stream.queue.length then
                some (s.setBroadcast b (some { call with
                  hand := .restoring sub (carried + 1) }), [])
              else
                let stream := { stream with queue := stream.queue ++ [update call.message carried] }
                some ((s.setStream sub stream).setBroadcast b
                  (some { call with hand := .empty }), [])
          | none => none
      | .empty | .restoring _ _ => none
  | none => none

def restore (b : ℕ) : Option (ClientManager × List Record) :=
  match s.broadcasts b with
  | some call =>
      match call.hand with
      | .restoring sub amount =>
          match s.subs sub with
          | some entry =>
              some ((s.setEntry sub (some { entry with
                dropped := entry.dropped + amount })).setBroadcast
                b (some { call with hand := .empty }), [])
          | none => none
      | .empty | .carrying _ _ => none
  | none => none

/-- The iterator ends once it has yielded every entry that was there all along. -/
def endIteration (b : ℕ) : Option (ClientManager × List Record) :=
  match s.broadcasts b with
  | some call =>
      if call.hand = .empty ∧ ∀ sub < call.limit, (s.subs sub).isSome →
        sub ∈ call.visited then
        some (s.setBroadcast b (some { call with iterated := true }), [])
      else none
  | none => none

/-- Remove the next of the entries whose receiver was gone. -/
def prune (b : ℕ) : Option (ClientManager × List Record) :=
  match s.broadcasts b with
  | some call =>
      match call.dead with
      | sub :: dead =>
          if call.iterated ∧ s.Unlocked sub then
            some ((s.setEntry sub none).setBroadcast b (some { call with dead }), [])
          else none
      | [] => none
  | none => none

def finish (b : ℕ) : Option (ClientManager × List Record) :=
  match s.broadcasts b with
  | some call => if call.iterated ∧ call.dead = [] then some (s.setBroadcast b none, []) else none
  | none => none

/-- A poll that finds an update; one that finds none changes nothing. -/
def poll (sub : ℕ) : Option (ClientManager × List Record) :=
  match s.streams sub with
  | some stream =>
      match stream.queue with
      | item :: queue =>
          if stream.dropping then none
          else some (s.setStream sub { stream with queue }, [.yielded sub item])
      | [] => none
  | none => none

def drop (sub : ℕ) : Option (ClientManager × List Record) :=
  match s.streams sub with
  | some stream =>
      if stream.dropping then none else some (s.setStream sub { stream with dropping := true }, [])
  | none => none

/-- The receiver closes the channel and discards what is queued. -/
def dropReceiver (sub : ℕ) : Option (ClientManager × List Record) :=
  match s.streams sub with
  | some stream =>
      if stream.dropping ∧ stream.receiverGone = false then
        some (s.setStream sub { stream with queue := [], receiverGone := true }, [])
      else none
  | none => none

def dropGuard (sub : ℕ) : Option (ClientManager × List Record) :=
  match s.streams sub with
  | some stream =>
      if stream.dropping ∧ stream.guardGone = false ∧ s.Unlocked sub then
        some ((s.setEntry sub none).setStream sub { stream with guardGone := true }, [])
      else none
  | none => none

def step (s : ClientManager) : Input → Option (ClientManager × List Record)
  | .subscribe pattern recordPerms => some (s.subscribe pattern recordPerms)
  | .broadcast message => some (s.begin message)
  | .visit b sub => s.visit b sub
  | .trySend b => s.trySend b
  | .restore b => s.restore b
  | .endIteration b => s.endIteration b
  | .prune b => s.prune b
  | .finish b => s.finish b
  | .poll sub => s.poll sub
  | .drop sub => s.drop sub
  | .dropReceiver sub => s.dropReceiver sub
  | .dropGuard sub => s.dropGuard sub

end ClientManager

end AimDb.WebSocket
