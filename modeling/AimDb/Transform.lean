import AimDb.Containers.Following
import AimDb.Outbound.Route
import AimDb.Transition.Runs
import Mathlib.Logic.Function.Basic

/-!
# Derived records

A transform reads one record and writes another.  A join reads several, through
one forwarder for each input that feeds a bounded queue, and its handler takes the
triggers out.  The inputs decide which task runs next and what its reader gives it.
-/

namespace AimDb.Transform

open Following
open Outbound.Routes (Sample WriteMetadata)

variable {T S : Type}

/-- A single-input transform; `map` has a trivial state. -/
structure Single (T S : Type) where
  input : ℕ
  output : ℕ
  initialState : S
  transformFn : T → S → Option T × S

structure Join where
  inputs : List ℕ
  output : ℕ
  deriving DecidableEq, Repr

structure Config (T S : Type) where
  transforms : List (Single T S)
  joins : List Join
  /-- The target is `std` or wasm32. -/
  roomy : Bool

def Config.joinQueueCapacity (config : Config T S) : ℕ := if config.roomy then 64 else 16

structure JoinTrigger (T : Type) where
  index : ℕ
  value : T
  metadata : WriteMetadata
  deriving DecidableEq, Repr

/-- Everything that runs a `recv` loop. -/
inductive Task where
  | transform (transform : ℕ)
  | forwarder (join index : ℕ)
  deriving DecidableEq, Repr

def Config.input (config : Config T S) : Task → Option ℕ
  | .transform transform => config.transforms[transform]?.map (·.input)
  | .forwarder join index => config.joins[join]?.bind (·.inputs[index]?)

/-- The reader of a task; it goes with its task. -/
inductive Reader where
  | unsubscribed
  | subscribed (next : ℕ)
  | gone
  deriving DecidableEq, Repr

structure State (T S : Type) where
  /-- Everything that was written to a record, whatever its buffer still keeps. -/
  written : ℕ → List (Sample T)
  readers : Task → Reader
  states : ℕ → Option S
  /-- The trigger that a forwarder's `send` waits with. -/
  sending : Task → Option (JoinTrigger T)
  queue : ℕ → List (JoinTrigger T)
  /-- The handler of a join has returned, and its receiver is dropped. -/
  exited : ℕ → Bool

/-- What `recv` comes to, as the buffer decides. -/
inductive Outcome where
  /-- The sample after `passed` others, which a ring never passes over. -/
  | sample (passed : ℕ)
  | lagged (count : ℕ)
  /-- `BufferClosed` or another error. -/
  | failed
  deriving DecidableEq, Repr

inductive Input (T : Type) where
  /-- A producer, a connector or a remote `set` writes a record. -/
  | produce (record : ℕ) (sample : Sample T)
  | subscribe (task : Task) (joined : Option ℕ)
  /-- `now` stamps what a transform writes. -/
  | recv (task : Task) (outcome : Outcome) (now : UInt64)
  | send (join index : ℕ)
  | recvTrigger (join : ℕ)
  | handlerProduces (join : ℕ) (sample : Sample T)
  | handlerExits (join : ℕ)

inductive Writer where
  | outside
  | transform (transform : ℕ)
  | handler (join : ℕ)
  deriving DecidableEq, Repr

inductive Event (T : Type) where
  | wrote (writer : Writer) (record : ℕ) (sample : Sample T)
  | subscribed (task : Task) (joined : ℕ)
  | read (task : Task) (reading : Reading (Sample T))
  | ended (task : Task)
  | queued (join : ℕ) (trigger : JoinTrigger T)
  | received (join : ℕ) (trigger : JoinTrigger T)
  /-- The handler's `recv` returned `QueueClosed`. -/
  | queueClosed (join : ℕ)
  deriving DecidableEq, Repr

namespace State

def write (s : State T S) (record : ℕ) (sample : Sample T) : State T S :=
  { s with written := Function.update s.written record (s.written record ++ [sample]) }

def setReader (s : State T S) (task : Task) (reader : Reader) : State T S :=
  { s with readers := Function.update s.readers task reader }

def setState (s : State T S) (transform : ℕ) (state : S) : State T S :=
  { s with states := Function.update s.states transform (some state) }

def setSending (s : State T S) (task : Task) (trigger : Option (JoinTrigger T)) : State T S :=
  { s with sending := Function.update s.sending task trigger }

def setQueue (s : State T S) (join : ℕ) (queue : List (JoinTrigger T)) : State T S :=
  { s with queue := Function.update s.queue join queue }

def finish (s : State T S) (task : Task) : State T S := s.setReader task .gone

end State

variable (config : Config T S)

/-- `run_single_transform` with a value in hand. -/
def State.transformed (s : State T S) (transform : ℕ) (sample : Sample T) (now : UInt64) :
    State T S × List (Event T) :=
  match config.transforms[transform]?, s.states transform with
  | some single, some state =>
      let (output, state) := single.transformFn sample.value state
      let s := s.setState transform state
      match output with
      | none => (s, [])
      | some value =>
          let written : Sample T := ⟨value, ⟨now⟩⟩
          (s.write single.output written, [.wrote (.transform transform) single.output written])
  | _, _ => (s, [])

def State.handle (s : State T S) (task : Task) (sample : Sample T) (now : UInt64) :
    State T S × List (Event T) :=
  match task with
  | .transform transform => s.transformed config transform sample now
  | .forwarder _ index => (s.setSending task (some ⟨index, sample.value, sample.metadata⟩), [])

/-- One `recv` of a task whose reader stands at `next` of a history. -/
def State.recv (s : State T S) (task : Task) (history : List (Sample T)) (next : ℕ)
    (outcome : Outcome) (now : UInt64) : Option (State T S × List (Event T)) :=
  match outcome with
  | .sample passed => history[next + passed]?.map fun sample =>
      let (s, events) :=
        (s.setReader task (.subscribed (next + (passed + 1)))).handle config task sample now
      (s, .read task (.sample passed sample) :: events)
  -- a lag is reported, and the loop goes on
  | .lagged count =>
      if next + count ≤ history.length then
        some (s.setReader task (.subscribed (next + count)), [.read task (.missed count)])
      else none
  | .failed => some (s.finish task, [.ended task])

/-- One attempt of `tx.send`, which waits while the queue is full. -/
def State.send (s : State T S) (join index : ℕ) (trigger : JoinTrigger T) :
    State T S × List (Event T) :=
  let task := .forwarder join index
  if s.exited join then ((s.setSending task none).finish task, [.ended task])
  else if (s.queue join).length < config.joinQueueCapacity then
    ((s.setSending task none).setQueue join (s.queue join ++ [trigger]), [.queued join trigger])
  else (s, [])

def State.AllGone (s : State T S) (join : ℕ) (inputs : List ℕ) : Prop :=
  ∀ index < inputs.length, s.readers (.forwarder join index) = .gone

instance (s : State T S) (join : ℕ) (inputs : List ℕ) : Decidable (s.AllGone join inputs) :=
  inferInstanceAs (Decidable (∀ index < inputs.length, _ = _))

/-- `JoinEventRx::recv`, pending while the queue is empty and a sender is left. -/
def State.recvTrigger (s : State T S) (join : ℕ) (inputs : List ℕ) :
    State T S × List (Event T) :=
  match s.queue join with
  | trigger :: queue => (s.setQueue join queue, [.received join trigger])
  | [] => (s, if s.AllGone join inputs then [.queueClosed join] else [])

def step (s : State T S) : Input T → Option (State T S × List (Event T))
  | .produce record sample => some (s.write record sample, [.wrote .outside record sample])
  | .subscribe task joined =>
      match config.input task, s.readers task with
      | some input, .unsubscribed =>
          match joined with
          | none => some (s.finish task, [.ended task])
          | some joined =>
              if joined ≤ (s.written input).length then
                some (s.setReader task (.subscribed joined), [.subscribed task joined])
              else none
      | _, _ => none
  | .recv task outcome now =>
      match config.input task, s.readers task, s.sending task with
      | some input, .subscribed next, none => s.recv config task (s.written input) next outcome now
      | _, _, _ => none
  | .send join index => (s.sending (.forwarder join index)).map (s.send config join index)
  | .recvTrigger join =>
      match config.joins[join]?, s.exited join with
      | some configured, false => some (s.recvTrigger join configured.inputs)
      | _, _ => none
  | .handlerProduces join sample =>
      match config.joins[join]?, s.exited join with
      | some configured, false =>
          some (s.write configured.output sample, [.wrote (.handler join) configured.output sample])
      | _, _ => none
  | .handlerExits join =>
      if s.exited join then none
      else some ({ s with exited := Function.update s.exited join true }, [])

def start : State T S where
  written _ := []
  readers _ := .unsubscribed
  states transform := config.transforms[transform]?.map (·.initialState)
  sending _ := none
  queue _ := []
  exited _ := false

abbrev Runs : State T S → List (Event T) → Prop :=
  Transition.Reachable (step config) (start config)

end AimDb.Transform
