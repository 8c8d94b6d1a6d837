import AimDb.Tokio.Mailbox
import AimDb.Tokio.Mailbox.Steps
import AimDb.Transition.Runs

/-!
# No wake-up and no latest value is lost
-/

namespace AimDb.Tokio.Mailbox

open Transition

variable {T W : Type}

/-- The reader's waker is in the list, and there is nothing yet to wake it for. -/
structure Registered (threads : Threads T W) (reader : ℕ) (waker : W) : Prop where
  listed : ∃ key, keyOf threads.readers reader = some key ∧
    (key, waker) ∈ threads.state.wakers
  empty : threads.state.slot = none
  opened : threads.state.closed = false

/-- A push or the drop of the buffer is under way and has still to call the waker. -/
def Promised (threads : Threads T W) (reader : ℕ) (waker : W) : Prop :=
  ∃ key, keyOf threads.readers reader = some key ∧
    ((∃ push ∈ threads.pushes, (key, waker) ∈ push) ∨
      ∃ drop, threads.closing = some drop ∧ (key, waker) ∈ drop)

structure Contract (threads : Threads T W) (log : List (Event T W)) : Prop where
  wakes : ∀ {reader waker}, Waiting log reader waker →
    Registered threads reader waker ∨ Promised threads reader waker
  apart : (threads.state.wakers.map Prod.fst).Nodup
  owned : ∀ entry ∈ threads.state.wakers, ∃ reader,
    keyOf threads.readers reader = some entry.1 ∧ Parked log reader entry.2 ∧
      ∀ other, keyOf threads.readers other = some entry.1 → other = reader
  pushed : ∀ {rest more}, log = rest ++ more → (∀ event ∈ rest, ¬ IsPush event) →
    deliveries rest = []
  once : ∀ {before value rest more}, log = before ++ .pushed value :: (rest ++ more) →
    (∀ event ∈ rest, ¬ IsPush event) → deliveries rest = [] ∨ deliveries rest = [value]
  latest : ∀ {before value rest}, log = before ++ .pushed value :: rest →
    (∀ event ∈ rest, ¬ IsPush event) →
    threads.state.slot = some value ∧ deliveries rest = [] ∨
      threads.state.slot = none ∧ deliveries rest = [value]
  resolved : ∀ {before rest}, log = before ++ .closed :: rest →
    Resolved (held before).value (outcomes rest)

structure Follows (threads : Threads T W) (log : List (Event T W)) : Prop where
  registry : Registry threads log
  accepts : slot.Accepts ⟨none, false⟩ log
  held : held log = ⟨threads.state.slot, threads.state.closed⟩
  closing : threads.closing.isSome = threads.state.closed

variable {threads : Threads T W} {log : List (Event T W)}

theorem held_append (before rest : List (Event T W)) :
    held (before ++ rest) = slot.remember (held before) rest :=
  Monitor.remember_append

theorem Follows.accepts_after (follows : Follows threads log) {before rest : List (Event T W)}
    (split : log = before ++ rest) : slot.Accepts (Mailbox.held before) rest := by
  have accepts := follows.accepts
  rw [split] at accepts
  exact (Monitor.accepts_append.mp accepts).2

theorem append_toList_eq_singleton {values : List T} {left : Option T} {value : T}
    (append : values ++ left.toList = [value]) :
    left = some value ∧ values = [] ∨ left = none ∧ values = [value] := by
  cases left with
  | none => exact .inr ⟨rfl, by simpa using append⟩
  | some last =>
      obtain ⟨rfl, same⟩ := List.append_eq_singleton_iff.mp append |>.resolve_right (by simp)
      exact .inl ⟨congrArg some (List.singleton_inj.mp same), rfl⟩

theorem Follows.contract (follows : Follows threads log) : Contract threads log where
  wakes := by
    intro reader waker waiting
    obtain ⟨key, own, mem⟩ := follows.registry.waiting waiting
    simp only [Threads.toWake, List.mem_append, List.mem_flatten] at mem
    rcases mem with listed | pushed | closed
    · obtain ⟨empty, opened⟩ := follows.registry.idle (List.ne_nil_of_mem listed)
      exact .inl ⟨⟨key, own, listed⟩, empty, opened⟩
    · exact .inr ⟨key, own, .inl pushed⟩
    · refine .inr ⟨key, own, .inr ?_⟩
      cases drop : threads.closing with
      | none => simp [drop] at closed
      | some rest => exact ⟨rest, rfl, by simpa [drop] using closed⟩
  apart := follows.registry.keys
  owned entry mem := by
    obtain ⟨reader, own, parked⟩ := follows.registry.owned entry mem
    exact ⟨reader, own, parked, fun other theirs => follows.registry.apart theirs own⟩
  pushed := by
    intro rest more split quiet
    have accepts := follows.accepts
    rw [split] at accepts
    have all := deliveries_append_held (Monitor.accepts_append.mp accepts).1 quiet
    exact (List.append_eq_nil_iff.mp all).1
  once := by
    intro before value rest more split quiet
    have accepts := (follows.accepts_after split).2
    have all := deliveries_append_held (Monitor.accepts_append.mp accepts).1 quiet
    rcases append_toList_eq_singleton all with ⟨-, none⟩ | ⟨-, one⟩
    · exact .inl none
    · exact .inr one
  latest := by
    intro before value rest split quiet
    have all := deliveries_append_held (follows.accepts_after split).2 quiet
    have now : (slot.remember (slot.track (Mailbox.held before) (Event.pushed value : Event T W))
        rest).value = threads.state.slot := by
      have held := follows.held
      rw [split, held_append, Monitor.remember_cons] at held
      rw [held]
    rw [now] at all
    exact append_toList_eq_singleton all
  resolved := by
    intro before rest split
    exact resolved (Mailbox.held before).value (follows.accepts_after split).2

theorem Follows.start : Follows (Threads.new : Threads T W) [] where
  registry := .start
  accepts := trivial
  held := rfl
  closing := rfl

/-- A section that emits nothing leaves the slot alone. -/
theorem Follows.silent (follows : Follows threads log) {after : Threads T W}
    (registry : Registry after log) (slot : after.state.slot = threads.state.slot)
    (closed : after.state.closed = threads.state.closed)
    (closing : after.closing = threads.closing) : Follows after log where
  registry := registry
  accepts := follows.accepts
  held := by rw [follows.held, slot, closed]
  closing := by rw [closing, closed, follows.closing]

theorem Follows.snoc (follows : Follows threads log) {after : Threads T W} {event : Event T W}
    (registry : Registry after (log ++ [event]))
    (permits : slot.permits ⟨threads.state.slot, threads.state.closed⟩ event)
    (track : slot.track ⟨threads.state.slot, threads.state.closed⟩ event =
      ⟨after.state.slot, after.state.closed⟩)
    (closing : after.closing.isSome = after.state.closed) : Follows after (log ++ [event]) where
  registry := registry
  accepts := Monitor.accepts_append.mpr ⟨follows.accepts, by
    change slot.permits (Mailbox.held log) event
    rw [follows.held]
    exact permits, trivial⟩
  held := by
    rw [held_append, follows.held]
    exact track
  closing := closing

theorem Follows.pollRecv (follows : Follows threads log) {reader : ℕ} {own : Reader}
    (found : threads.readers[reader]?.join = some own) (waker : W) :
    Follows
      { threads with
        state := (threads.state.pollRecv waker own.wakerKey).2.1
        readers := threads.readers.set reader
          (some ⟨(threads.state.pollRecv waker own.wakerKey).2.2⟩) }
      (log ++ [.polled reader waker (threads.state.pollRecv waker own.wakerKey).1]) := by
  cases content : threads.state.slot with
  | some value =>
      have polled : threads.state.pollRecv waker own.wakerKey =
          (.ok value, { threads.state with slot := none }, own.wakerKey) := by
        rw [MailboxState.pollRecv, content]
      rw [polled]
      refine follows.snoc (follows.registry.pollResolved found waker (.inl ?_) (by simp) none) ?_ ?_
        follows.closing
      · rw [content]
        exact Option.some_ne_none value
      · rw [content]
        rfl
      · rw [content]
        rfl
  | none =>
      cases closed : threads.state.closed with
      | true =>
          have polled : threads.state.pollRecv waker own.wakerKey =
              (.bufferClosed, { threads.state with slot := none }, own.wakerKey) := by
            rw [MailboxState.pollRecv, content, closed]
            exact congrArg (fun state => (Outcome.bufferClosed, state, own.wakerKey)) (by
              rw [← content])
          rw [polled]
          refine follows.snoc (follows.registry.pollResolved found waker (.inr closed) (by simp)
            none) ?_ ?_ follows.closing
          · rw [content, closed]
            rfl
          · rw [content]
            rfl
      | false =>
          have polled : threads.state.pollRecv waker own.wakerKey =
              (.pending, threads.state.register waker own.wakerKey) := by
            rw [MailboxState.pollRecv, content, closed]
            rfl
          rw [polled]
          have answer : slot.permits ⟨threads.state.slot, threads.state.closed⟩
              (.polled reader waker .pending : Event T W) := by
            rw [content, closed]
            rfl
          rcases register_cases follows.registry.keys waker own.wakerKey with
            ⟨key, same, listed, renewed⟩ | ⟨unlisted, registered⟩
          · obtain ⟨wakerKey⟩ := own
            obtain rfl : wakerKey = some key := same
            rw [renewed]
            exact follows.snoc (follows.registry.pollRenewed found waker listed) answer
              (by rw [content]; rfl) follows.closing
          · rw [registered]
            exact follows.snoc
              (follows.registry.pollRegistered found waker content closed unlisted) answer
              (by rw [content]; rfl) follows.closing

theorem Follows.tryRecv (follows : Follows threads log) (reader : ℕ) :
    Follows { threads with state := threads.state.tryRecv.2 }
      (log ++ [.tried reader threads.state.tryRecv.1]) := by
  refine follows.snoc (follows.registry.tryRecv reader) ?_ ?_ ?_
  · change threads.state.tryRecv.1 = _
    rw [MailboxState.tryRecv]
    cases threads.state.slot with
    | none => rfl
    | some value => rfl
  · rw [Registry.tryRecv_state]
    rfl
  · rw [Registry.tryRecv_state]
    exact follows.closing

theorem dropReader_eq_filter (state : MailboxState T W) (wakerKey : Option ℕ) :
    state.dropReader wakerKey =
      { state with wakers := state.wakers.filter fun entry => wakerKey ≠ some entry.1 } := by
  cases wakerKey with
  | none => simp [MailboxState.dropReader]
  | some key =>
      have same : (fun entry : ℕ × W => decide (entry.1 ≠ key)) =
          fun entry => decide (some key ≠ some entry.1) := by
        funext entry
        simp [eq_comm]
      exact congrArg (fun test => { state with wakers := state.wakers.filter test }) same

theorem Follows.dropReader (follows : Follows threads log) {reader : ℕ} {own : Reader}
    (found : threads.readers[reader]?.join = some own) :
    Follows
      { threads with
        state := { threads.state with
          wakers := threads.state.wakers.filter fun entry => own.wakerKey ≠ some entry.1 }
        readers := threads.readers.set reader none }
      (log ++ [.dropped reader]) :=
  follows.snoc (follows.registry.dropReader found) trivial rfl follows.closing

theorem Follows.opened (follows : Follows threads log) (borrowed : threads.closing.isNone = true) :
    threads.state.closed = false := by
  rw [← follows.closing]
  cases closing : threads.closing with
  | none => rfl
  | some drop => simp [closing] at borrowed

theorem Follows.step (follows : Follows threads log) {action : Action T W} {after : Threads T W}
    {emitted : List (Event T W)} (stepped : threads.step action = some (after, emitted)) :
    Follows after (log ++ emitted) := by
  cases action with
  | push value =>
      obtain ⟨borrowed, same⟩ := Option.ite_none_right_eq_some.mp stepped
      obtain ⟨rfl, rfl⟩ := Prod.mk.inj (Option.some.inj same)
      exact follows.snoc (follows.registry.push value) (follows.opened borrowed) rfl follows.closing
  | wake thread =>
      rw [Threads.step] at stepped
      cases found : threads.pushes[thread]? with
      | none => simp [found] at stepped
      | some push =>
          cases push with
          | nil => simp [found] at stepped
          | cons first rest =>
              rw [found] at stepped
              obtain ⟨rfl, rfl⟩ := Prod.mk.inj (Option.some.inj stepped)
              exact follows.snoc (follows.registry.wake found) trivial rfl follows.closing
  | recycle thread =>
      rw [Threads.step] at stepped
      cases found : threads.pushes[thread]? with
      | none => simp [found] at stepped
      | some push =>
          cases push with
          | cons first rest => simp [found] at stepped
          | nil =>
              rw [found] at stepped
              obtain ⟨rfl, rfl⟩ := Prod.mk.inj (Option.some.inj stepped)
              rw [List.append_nil]
              exact follows.silent (follows.registry.recycle found) rfl rfl rfl
  | subscribe =>
      obtain ⟨-, same⟩ := Option.ite_none_right_eq_some.mp stepped
      obtain ⟨rfl, rfl⟩ := Prod.mk.inj (Option.some.inj same)
      rw [List.append_nil]
      exact follows.silent follows.registry.subscribe rfl rfl rfl
  | pollRecv reader waker =>
      obtain ⟨own, found, same⟩ := Option.map_eq_some_iff.mp stepped
      obtain ⟨rfl, rfl⟩ := Prod.mk.inj same
      exact follows.pollRecv found waker
  | tryRecv reader =>
      obtain ⟨own, -, same⟩ := Option.map_eq_some_iff.mp stepped
      obtain ⟨rfl, rfl⟩ := Prod.mk.inj same
      exact follows.tryRecv reader
  | dropReader reader =>
      obtain ⟨own, found, same⟩ := Option.map_eq_some_iff.mp stepped
      obtain ⟨rfl, rfl⟩ := Prod.mk.inj same
      rw [dropReader_eq_filter]
      exact follows.dropReader found
  | dropBuffer =>
      obtain ⟨⟨borrowed, -⟩, same⟩ := Option.ite_none_right_eq_some.mp stepped
      obtain ⟨rfl, rfl⟩ := Prod.mk.inj (Option.some.inj same)
      have closing : threads.closing = none := Option.isNone_iff_eq_none.mp borrowed
      exact follows.snoc (follows.registry.dropBuffer closing) (follows.opened borrowed) rfl rfl
  | wakeClosed =>
      rw [Threads.step] at stepped
      cases found : threads.closing with
      | none => simp [found] at stepped
      | some drop =>
          cases drop with
          | nil => simp [found] at stepped
          | cons first rest =>
              rw [found] at stepped
              obtain ⟨rfl, rfl⟩ := Prod.mk.inj (Option.some.inj stepped)
              have closed : threads.state.closed = true := by
                rw [← follows.closing, found]
                rfl
              exact follows.snoc (follows.registry.wakeClosed found) trivial rfl closed.symm

theorem Reached.follows (reached : Reached threads log) : Follows threads log :=
  reached.invariant Follows .start fun _ _ stepped follows => follows.step stepped

/-- However the sections and the wake calls of pushes, polls and drops stand in each other's
way, no reader that waits is forgotten, and no value but an overwritten one is. -/
theorem mailbox_keeps (reached : Reached threads log) : Contract threads log :=
  reached.follows.contract

/-- Two readers park, one value arrives, and a third poll takes it before anyone is woken. -/
theorem mailbox_keeps_stolen :
    ∃ (threads : Threads ℕ ℕ) (log : List (Event ℕ ℕ)),
      threads.toWake = [(0, 7), (1, 8)] ∧
      threads.state.slot = none ∧ Contract threads log := by
  have replayed : ∃ threads log,
      replay Threads.step (Threads.new : Threads ℕ ℕ)
        [.subscribe, .subscribe, .subscribe, .pollRecv 0 7, .pollRecv 1 8, .push 5,
          .pollRecv 2 9] = some (threads, log) ∧
        threads.toWake = [(0, 7), (1, 8)] ∧ threads.state.slot = none :=
    ⟨_, _, rfl, rfl, rfl⟩
  obtain ⟨threads, log, run, toWake, slot⟩ := replayed
  exact ⟨threads, log, toWake, slot, mailbox_keeps (reachable_of_replay run)⟩

end AimDb.Tokio.Mailbox
