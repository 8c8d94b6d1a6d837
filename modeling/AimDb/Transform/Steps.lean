import AimDb.Transform

/-!
# What one step does

Every step of the tasks is one of a few moves, and a log tells for each task what
it read and for each writer what it wrote.
-/

namespace AimDb.Transform

open Following Transition
open Outbound.Routes (Sample)

variable {T S : Type} {config : Config T S} {s after : State T S} {log emitted : List (Event T)}

def Event.joined? (task : Task) : Event T → Option ℕ
  | .subscribed other joined => if other = task then some joined else none
  | _ => none

def Event.reading? (task : Task) : Event T → Option (Reading (Sample T))
  | .read other reading => if other = task then some reading else none
  | _ => none

def Event.write? (record : ℕ) : Event T → Option (Sample T)
  | .wrote _ other sample => if other = record then some sample else none
  | _ => none

def Event.authored? (writer : Writer) : Event T → Option T
  | .wrote other _ sample => if other = writer then some sample.value else none
  | _ => none

def Event.queued? (join : ℕ) : Event T → Option (JoinTrigger T)
  | .queued other trigger => if other = join then some trigger else none
  | _ => none

def Event.received? (join : ℕ) : Event T → Option (JoinTrigger T)
  | .received other trigger => if other = join then some trigger else none
  | _ => none

def joins (task : Task) (log : List (Event T)) : List ℕ := log.filterMap (Event.joined? task)

def readings (task : Task) (log : List (Event T)) : List (Reading (Sample T)) :=
  log.filterMap (Event.reading? task)

def writes (record : ℕ) (log : List (Event T)) : List (Sample T) :=
  log.filterMap (Event.write? record)

def authored (writer : Writer) (log : List (Event T)) : List T :=
  log.filterMap (Event.authored? writer)

def queuedOf (join : ℕ) (log : List (Event T)) : List (JoinTrigger T) :=
  log.filterMap (Event.queued? join)

def receivedOf (join : ℕ) (log : List (Event T)) : List (JoinTrigger T) :=
  log.filterMap (Event.received? join)

variable (task : Task) (record join : ℕ) (writer : Writer) (event : Event T)
    (more : List (Event T))

@[simp] theorem joins_nil : joins task ([] : List (Event T)) = [] := rfl

@[simp] theorem joins_cons :
    joins task (event :: more) = (event.joined? task).toList ++ joins task more := by
  cases told : event.joined? task <;> simp [joins, told]

@[simp] theorem joins_append : joins task (log ++ more) = joins task log ++ joins task more :=
  List.filterMap_append

@[simp] theorem readings_nil : readings task ([] : List (Event T)) = [] := rfl

@[simp] theorem readings_cons :
    readings task (event :: more) = (event.reading? task).toList ++ readings task more := by
  cases told : event.reading? task <;> simp [readings, told]

@[simp] theorem readings_append :
    readings task (log ++ more) = readings task log ++ readings task more :=
  List.filterMap_append

@[simp] theorem writes_nil : writes record ([] : List (Event T)) = [] := rfl

@[simp] theorem writes_cons :
    writes record (event :: more) = (event.write? record).toList ++ writes record more := by
  cases told : event.write? record <;> simp [writes, told]

@[simp] theorem writes_append :
    writes record (log ++ more) = writes record log ++ writes record more :=
  List.filterMap_append

@[simp] theorem authored_nil : authored writer ([] : List (Event T)) = [] := rfl

@[simp] theorem authored_cons :
    authored writer (event :: more) = (event.authored? writer).toList ++ authored writer more := by
  cases told : event.authored? writer <;> simp [authored, told]

@[simp] theorem authored_append :
    authored writer (log ++ more) = authored writer log ++ authored writer more :=
  List.filterMap_append

@[simp] theorem queuedOf_nil : queuedOf join ([] : List (Event T)) = [] := rfl

@[simp] theorem queuedOf_cons :
    queuedOf join (event :: more) = (event.queued? join).toList ++ queuedOf join more := by
  cases told : event.queued? join <;> simp [queuedOf, told]

@[simp] theorem queuedOf_append :
    queuedOf join (log ++ more) = queuedOf join log ++ queuedOf join more :=
  List.filterMap_append

@[simp] theorem receivedOf_nil : receivedOf join ([] : List (Event T)) = [] := rfl

@[simp] theorem receivedOf_cons :
    receivedOf join (event :: more) = (event.received? join).toList ++ receivedOf join more := by
  cases told : event.received? join <;> simp [receivedOf, told]

@[simp] theorem receivedOf_append :
    receivedOf join (log ++ more) = receivedOf join log ++ receivedOf join more :=
  List.filterMap_append

variable (config s) in
inductive Moves : State T S → List (Event T) → Prop
  | wrote {writer : Writer} {record : ℕ} {sample : Sample T} :
      (∀ transform, writer ≠ .transform transform) →
      Moves (s.write record sample) [.wrote writer record sample]
  | subscribed {task : Task} {input joined : ℕ} :
      config.input task = some input → s.readers task = .unsubscribed →
      joined ≤ (s.written input).length →
      Moves (s.setReader task (.subscribed joined)) [.subscribed task joined]
  | finished {task : Task} : s.readers task = .unsubscribed ∨ s.sending task = none →
      s.readers task ≠ .gone → Moves (s.finish task) [.ended task]
  | missed {task : Task} {input next count : ℕ} :
      config.input task = some input → s.readers task = .subscribed next →
      s.sending task = none → next + count ≤ (s.written input).length →
      Moves (s.setReader task (.subscribed (next + count))) [.read task (.missed count)]
  | absorbed {transform input next passed : ℕ} {sample : Sample T}
      {single : Single T S} {state : S} :
      config.transforms[transform]? = some single → single.input = input →
      s.readers (.transform transform) = .subscribed next →
      (s.written input)[next + passed]? = some sample → s.states transform = some state →
      (single.transformFn sample.value state).1 = none →
      Moves ((s.setReader (.transform transform) (.subscribed (next + (passed + 1)))).setState
          transform (single.transformFn sample.value state).2)
        [.read (.transform transform) (.sample passed sample)]
  | derived {transform input next passed : ℕ} {sample written : Sample T} {single : Single T S}
      {state : S} :
      config.transforms[transform]? = some single → single.input = input →
      s.readers (.transform transform) = .subscribed next →
      (s.written input)[next + passed]? = some sample → s.states transform = some state →
      (single.transformFn sample.value state).1 = some written.value →
      Moves (((s.setReader (.transform transform) (.subscribed (next + (passed + 1)))).setState
          transform (single.transformFn sample.value state).2).write single.output written)
        [.read (.transform transform) (.sample passed sample),
          .wrote (.transform transform) single.output written]
  | forwarded {join index input next passed : ℕ} {sample : Sample T} :
      config.input (.forwarder join index) = some input →
      s.readers (.forwarder join index) = .subscribed next →
      s.sending (.forwarder join index) = none →
      (s.written input)[next + passed]? = some sample →
      Moves ((s.setReader (.forwarder join index) (.subscribed (next + (passed + 1)))).setSending
          (.forwarder join index) (some ⟨index, sample.value, sample.metadata⟩))
        [.read (.forwarder join index) (.sample passed sample)]
  /-- `tx.send` fails once the receiver is dropped. -/
  | refused {join index : ℕ} {trigger : JoinTrigger T} :
      s.sending (.forwarder join index) = some trigger → s.exited join = true →
      Moves ((s.setSending (.forwarder join index) none).finish (.forwarder join index))
        [.ended (.forwarder join index)]
  | queued {join index : ℕ} {trigger : JoinTrigger T} :
      s.sending (.forwarder join index) = some trigger → s.exited join = false →
      (s.queue join).length < config.joinQueueCapacity →
      Moves ((s.setSending (.forwarder join index) none).setQueue join (s.queue join ++ [trigger]))
        [.queued join trigger]
  | waits : Moves s []
  | received {join : ℕ} {trigger : JoinTrigger T} {queue : List (JoinTrigger T)} :
      s.exited join = false → s.queue join = trigger :: queue →
      Moves (s.setQueue join queue) [.received join trigger]
  | queueClosed {join : ℕ} {configured : Join} : config.joins[join]? = some configured →
      s.exited join = false → s.queue join = [] → s.AllGone join configured.inputs →
      Moves s [.queueClosed join]
  | exited {join : ℕ} : s.exited join = false →
      Moves { s with exited := Function.update s.exited join true } []

def Started (config : Config T S) (s : State T S) : Prop :=
  ∀ transform single, config.transforms[transform]? = some single →
    ∃ state, s.states transform = some state

theorem moves_of_recv {task : Task} {input next : ℕ} {outcome : Outcome} {now : UInt64}
    (started : Started config s) (reads : config.input task = some input)
    (at_next : s.readers task = .subscribed next) (idle : s.sending task = none)
    (received : s.recv config task (s.written input) next outcome now = some (after, emitted)) :
    Moves config s after emitted := by
  cases outcome with
  | sample passed =>
      obtain ⟨sample, read, handled⟩ := Option.map_eq_some_iff.mp received
      cases handled
      cases task with
      | forwarder join index => exact .forwarded reads at_next idle read
      | transform transform =>
          obtain ⟨single, configured, same⟩ := Option.map_eq_some_iff.mp reads
          obtain ⟨state, has⟩ := started transform single configured
          cases output : (single.transformFn sample.value state).1 with
          | none =>
              have absorbed := Moves.absorbed configured same at_next read has output
              simpa [State.handle, State.transformed, configured, has, output, State.setReader]
                using absorbed
          | some value =>
              have derived := @Moves.derived _ _ _ _ _ _ _ _ _ ⟨value, ⟨now⟩⟩ _ _
                configured same at_next read has output
              simpa [State.handle, State.transformed, configured, has, output, State.setReader]
                using derived
  | lagged count =>
      rw [State.recv] at received
      split at received
      · next le =>
          cases received
          exact .missed reads at_next idle le
      · cases received
  | failed =>
      cases received
      exact .finished (.inr idle) (by simp [at_next])

theorem moves_of_step {input : Input T} (started : Started config s)
    (stepped : step config s input = some (after, emitted)) : Moves config s after emitted := by
  cases input with
  | produce record sample =>
      cases stepped
      exact .wrote (by simp)
  | subscribe task joined =>
      rw [step] at stepped
      split at stepped
      · next input reads fresh =>
          split at stepped
          · cases stepped
            exact .finished (.inl fresh) (by simp [fresh])
          · split at stepped
            · next le =>
                cases stepped
                exact .subscribed reads fresh le
            · cases stepped
      · cases stepped
  | recv task outcome now =>
      rw [step] at stepped
      split at stepped
      · next input next reads at_next idle =>
          exact moves_of_recv started reads at_next idle stepped
      · cases stepped
  | send join index =>
      obtain ⟨trigger, inHand, sent⟩ := Option.map_eq_some_iff.mp stepped
      rw [State.send] at sent
      split at sent
      · next dropped =>
          cases sent
          exact .refused inHand dropped
      · next open_ =>
          split at sent
          · next room =>
              cases sent
              exact .queued inHand (by simpa using open_) room
          · cases sent
            exact .waits
  | recvTrigger join =>
      rw [step] at stepped
      split at stepped
      · next configured is_configured alive =>
          rw [State.recvTrigger] at stepped
          split at stepped
          · next trigger queue some_queued =>
              cases stepped
              exact .received alive some_queued
          · next empty =>
              split at stepped
              · next gone =>
                  cases stepped
                  exact .queueClosed is_configured alive empty gone
              · cases stepped
                exact .waits
      · cases stepped
  | handlerProduces join sample =>
      rw [step] at stepped
      split at stepped
      · cases stepped
        exact .wrote (by simp)
      · cases stepped
  | handlerExits join =>
      rw [step] at stepped
      split at stepped
      · cases stepped
      · next alive =>
          cases stepped
          exact .exited (by simpa using alive)

end AimDb.Transform
