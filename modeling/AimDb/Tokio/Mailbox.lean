import AimDb.Transition.Monitor
import AimDb.Transition.Runs

/-!
# The mailbox of the tokio adapter

Threads meet in sections under one lock and call wakers outside it, so a push is a
section that fills the slot and drains the wakers, a call for each of them, and a
section that gives the drained list back.  Any other step may stand between two of these.
-/

namespace AimDb.Tokio.Mailbox

variable {T W : Type}

structure MailboxState (T W : Type) where
  slot : Option T
  closed : Bool
  wakers : List (ℕ × W)
  wakeScratch : List (ℕ × W)
  nextKey : ℕ
  deriving DecidableEq, Repr

inductive Outcome (T : Type) where
  | ok (value : T)
  | bufferClosed
  | bufferEmpty
  | pending
  deriving DecidableEq, Repr

namespace MailboxState

def new : MailboxState T W := ⟨none, false, [], [], 0⟩

/-- The first section of a push, with the readers to wake. -/
def push (value : T) (state : MailboxState T W) : MailboxState T W × List (ℕ × W) :=
  let swapped :=
    { state with slot := some value, wakers := state.wakeScratch, wakeScratch := state.wakers }
  ({ swapped with wakeScratch := [] }, swapped.wakeScratch)

/-- The last section of a push, once the drained list is cleared. -/
def recycle (toWake : List (ℕ × W)) (state : MailboxState T W) : MailboxState T W :=
  { state with wakeScratch := toWake }

/-- The section of the buffer's drop, with the readers to wake. -/
def close (state : MailboxState T W) : MailboxState T W × List (ℕ × W) :=
  ({ state with closed := true, wakers := [] }, state.wakers)

/-- A reader's own entry, if its key is still in the list. -/
def existing (state : MailboxState T W) (wakerKey : Option ℕ) : Option ℕ :=
  wakerKey.bind fun key => state.wakers.findIdx? (·.1 = key)

def register (waker : W) (state : MailboxState T W) (wakerKey : Option ℕ) :
    MailboxState T W × Option ℕ :=
  match state.existing wakerKey with
  | some idx =>
      ({ state with wakers := state.wakers.modify idx fun entry => (entry.1, waker) }, wakerKey)
  | none =>
      ({ state with
          nextKey := state.nextKey + 1
          wakers := state.wakers ++ [(state.nextKey, waker)] },
        some state.nextKey)

def pollRecv (waker : W) (state : MailboxState T W) (wakerKey : Option ℕ) :
    Outcome T × MailboxState T W × Option ℕ :=
  match state.slot with
  | some value => (.ok value, { state with slot := none }, wakerKey)
  | none =>
      if state.closed then (.bufferClosed, state, wakerKey)
      else (.pending, state.register waker wakerKey)

def tryRecv (state : MailboxState T W) : Outcome T × MailboxState T W :=
  match state.slot with
  | some value => (.ok value, { state with slot := none })
  | none => (if state.closed then .bufferClosed else .bufferEmpty, state)

def dropReader (state : MailboxState T W) : Option ℕ → MailboxState T W
  | some key => { state with wakers := state.wakers.filter (·.1 ≠ key) }
  | none => state

end MailboxState

structure Reader where
  wakerKey : Option ℕ
  deriving DecidableEq, Repr

structure Threads (T W : Type) where
  state : MailboxState T W
  /-- In the order they subscribed; a dropped reader leaves its place empty. -/
  readers : List (Option Reader)
  pushes : List (List (ℕ × W))
  /-- For the drop of the buffer, the readers it has still to wake. -/
  closing : Option (List (ℕ × W))
  deriving DecidableEq, Repr

inductive Action (T W : Type) where
  | push (value : T)
  | wake (thread : ℕ)
  | recycle (thread : ℕ)
  | subscribe
  | pollRecv (reader : ℕ) (waker : W)
  | tryRecv (reader : ℕ)
  | dropReader (reader : ℕ)
  | dropBuffer
  /-- The drop of the buffer calls its next waker. -/
  | wakeClosed
  deriving DecidableEq, Repr

inductive Event (T W : Type) where
  | pushed (value : T)
  | woken (waker : W)
  | polled (reader : ℕ) (waker : W) (outcome : Outcome T)
  | tried (reader : ℕ) (outcome : Outcome T)
  | dropped (reader : ℕ)
  | closed
  deriving DecidableEq, Repr

def Threads.step (threads : Threads T W) : Action T W → Option (Threads T W × List (Event T W))
  -- whoever pushes or subscribes borrows the buffer, so it is not dropped
  | .push value =>
      if threads.closing.isNone then
        let (state, toWake) := threads.state.push value
        some ({ threads with state, pushes := threads.pushes ++ [toWake] }, [.pushed value])
      else none
  | .wake thread =>
      match threads.pushes[thread]? with
      | some ((_, waker) :: rest) =>
          some ({ threads with pushes := threads.pushes.set thread rest }, [.woken waker])
      | _ => none
  | .recycle thread =>
      match threads.pushes[thread]? with
      | some [] => some ({ threads with
          state := threads.state.recycle []
          pushes := threads.pushes.eraseIdx thread }, [])
      | _ => none
  | .subscribe =>
      if threads.closing.isNone then
        some ({ threads with readers := threads.readers ++ [some ⟨none⟩] }, [])
      else none
  | .pollRecv reader waker =>
      threads.readers[reader]?.join.map fun own =>
        let (outcome, state, wakerKey) := threads.state.pollRecv waker own.wakerKey
        ({ threads with state, readers := threads.readers.set reader (some ⟨wakerKey⟩) },
          [.polled reader waker outcome])
  | .tryRecv reader =>
      threads.readers[reader]?.join.map fun _ =>
        let (outcome, state) := threads.state.tryRecv
        ({ threads with state }, [.tried reader outcome])
  | .dropReader reader =>
      threads.readers[reader]?.join.map fun own =>
        ({ threads with
            state := threads.state.dropReader own.wakerKey
            readers := threads.readers.set reader none },
          [.dropped reader])
  | .dropBuffer =>
      if threads.closing.isNone ∧ threads.pushes = [] then
        let (state, toWake) := threads.state.close
        some ({ threads with state, closing := some toWake }, [.closed])
      else none
  | .wakeClosed =>
      match threads.closing with
      | some ((_, waker) :: rest) => some ({ threads with closing := some rest }, [.woken waker])
      | _ => none

def Threads.new : Threads T W := ⟨.new, [], [], none⟩

abbrev Reached : Threads T W → List (Event T W) → Prop :=
  Transition.Reachable Threads.step Threads.new

open Transition

structure Held (T : Type) where
  value : Option T
  closed : Bool
  deriving DecidableEq, Repr

/-- What a read gives that says `idle` for an empty slot. -/
def Held.answer (held : Held T) (idle : Outcome T) : Outcome T :=
  match held.value with
  | some value => .ok value
  | none => if held.closed then .bufferClosed else idle

def slot : Monitor (Held T) (Event T W) where
  track held event :=
    match event with
    | .pushed value => { held with value := some value }
    | .polled _ _ _ | .tried _ _ => { held with value := none }
    | .closed => { held with closed := true }
    | .woken _ | .dropped _ => held
  permits held event :=
    match event with
    | .pushed _ | .closed => held.closed = false
    | .polled _ _ outcome => outcome = held.answer .pending
    | .tried _ outcome => outcome = held.answer .bufferEmpty
    | .woken _ | .dropped _ => True

def held (log : List (Event T W)) : Held T := slot.remember ⟨none, false⟩ log

def Event.outcome : Event T W → Option (Outcome T)
  | polled _ _ outcome | tried _ outcome => some outcome
  | pushed _ | woken _ | dropped _ | closed => none

def Outcome.value : Outcome T → Option T
  | ok value => some value
  | bufferClosed | bufferEmpty | pending => none

def outcomes (log : List (Event T W)) : List (Outcome T) := log.filterMap Event.outcome

def deliveries (log : List (Event T W)) : List T := (outcomes log).filterMap Outcome.value

def IsPush (event : Event T W) : Prop := ∃ value, event = .pushed value

/-- The outcomes after the buffer was dropped: the value the slot held, then refusals. -/
def Resolved (left : Option T) : List (Outcome T) → Prop
  | [] => True
  | first :: more =>
      match left with
      | some value => first = .ok value ∧ ∀ outcome ∈ more, outcome = .bufferClosed
      | none => ∀ outcome ∈ first :: more, outcome = .bufferClosed

variable {memory : Held T} {log rest : List (Event T W)}

theorem Held.value_answer {idle : Outcome T} (silent : idle.value = none) :
    (memory.answer idle).value = memory.value := by
  rw [answer]
  cases memory.value with
  | some value => rfl
  | none =>
      cases memory.closed with
      | true => rfl
      | false => exact silent

theorem deliveries_cons {event : Event T W} {outcome : Outcome T}
    (read : event.outcome = some outcome) :
    deliveries (event :: rest) = outcome.value.toList ++ deliveries rest := by
  rw [deliveries, outcomes, List.filterMap_cons_some read]
  cases value : outcome.value with
  | none => exact List.filterMap_cons_none value
  | some found => exact List.filterMap_cons_some value

theorem deliveries_append_held (accepts : slot.Accepts memory rest)
    (quiet : ∀ event ∈ rest, ¬ IsPush event) :
    deliveries rest ++ (slot.remember memory rest).value.toList = memory.value.toList := by
  induction rest generalizing memory with
  | nil => rfl
  | cons event rest inductionHypothesis =>
      rw [List.forall_mem_cons] at quiet
      obtain ⟨permitted, accepts⟩ := accepts
      have following := inductionHypothesis accepts quiet.2
      cases event with
      | pushed value => exact absurd ⟨value, rfl⟩ quiet.1
      | woken waker => exact following
      | dropped reader => exact following
      | closed => exact following
      | polled reader waker outcome =>
          obtain rfl := permitted
          rw [deliveries_cons rfl, Held.value_answer rfl, List.append_assoc]
          exact (congrArg (memory.value.toList ++ ·) following).trans (List.append_nil _)
      | tried reader outcome =>
          obtain rfl := permitted
          rw [deliveries_cons rfl, Held.value_answer rfl, List.append_assoc]
          exact (congrArg (memory.value.toList ++ ·) following).trans (List.append_nil _)

theorem refused (accepts : slot.Accepts ⟨none, true⟩ rest) :
    ∀ outcome ∈ outcomes rest, outcome = .bufferClosed := by
  induction rest with
  | nil => exact fun _ mem => absurd mem List.not_mem_nil
  | cons event rest inductionHypothesis =>
      obtain ⟨permitted, accepts⟩ := accepts
      cases event with
      | pushed value => exact absurd permitted Bool.noConfusion
      | closed => exact absurd permitted Bool.noConfusion
      | woken waker => exact inductionHypothesis accepts
      | dropped reader => exact inductionHypothesis accepts
      | polled reader waker outcome =>
          exact List.forall_mem_cons.mpr ⟨permitted, inductionHypothesis accepts⟩
      | tried reader outcome =>
          exact List.forall_mem_cons.mpr ⟨permitted, inductionHypothesis accepts⟩

theorem resolved (left : Option T) (accepts : slot.Accepts ⟨left, true⟩ rest) :
    Resolved left (outcomes rest) := by
  induction rest with
  | nil => trivial
  | cons event rest inductionHypothesis =>
      cases left with
      | none =>
          have all := refused accepts
          cases read : outcomes (event :: rest) with
          | nil => trivial
          | cons first more =>
              rw [read] at all
              exact all
      | some value =>
          obtain ⟨permitted, accepts⟩ := accepts
          cases event with
          | pushed value => exact absurd permitted Bool.noConfusion
          | closed => exact absurd permitted Bool.noConfusion
          | woken waker => exact inductionHypothesis accepts
          | dropped reader => exact inductionHypothesis accepts
          | polled reader waker outcome => exact ⟨permitted, refused accepts⟩
          | tried reader outcome => exact ⟨permitted, refused accepts⟩

def keyOf (readers : List (Option Reader)) (reader : ℕ) : Option ℕ :=
  readers[reader]?.join.bind Reader.wakerKey

def Event.about : Event T W → Option ℕ
  | polled reader _ _ | dropped reader => some reader
  | pushed _ | woken _ | tried _ _ | closed => none

/-- The reader was not dropped, and its last poll was pending. -/
def Parked (log : List (Event T W)) (reader : ℕ) (waker : W) : Prop :=
  Since (.polled reader waker .pending) (fun event => event.about ≠ some reader) log

def Waiting (log : List (Event T W)) (reader : ℕ) (waker : W) : Prop :=
  Since (.polled reader waker .pending)
    (fun event => event.about ≠ some reader ∧ event ≠ .woken waker) log

def Threads.toWake (threads : Threads T W) : List (ℕ × W) :=
  threads.pushes.flatten ++ threads.closing.getD []

structure Registry (threads : Threads T W) (log : List (Event T W)) : Prop where
  scratch : threads.state.wakeScratch = []
  keys : (threads.state.wakers.map Prod.fst).Nodup
  fresh : ∀ {reader key}, keyOf threads.readers reader = some key → key < threads.state.nextKey
  apart : ∀ {reader other key}, keyOf threads.readers reader = some key →
    keyOf threads.readers other = some key → reader = other
  owned : ∀ entry ∈ threads.state.wakers, ∃ reader,
    keyOf threads.readers reader = some entry.1 ∧ Parked log reader entry.2
  idle : threads.state.wakers ≠ [] → threads.state.slot = none ∧ threads.state.closed = false
  waiting : ∀ {reader waker}, Waiting log reader waker → ∃ key,
    keyOf threads.readers reader = some key ∧
      (key, waker) ∈ threads.state.wakers ++ threads.toWake

variable {readers : List (Option Reader)} {reader other : ℕ} {log : List (Event T W)}
  {event : Event T W} {waker : W}

theorem keyOf_set_self {slot : Option Reader} (present : reader < readers.length) :
    keyOf (readers.set reader slot) reader = slot.bind Reader.wakerKey := by
  rw [keyOf, List.getElem?_set_self present]
  rfl

theorem keyOf_set_of_ne {slot : Option Reader} (differs : reader ≠ other) :
    keyOf (readers.set reader slot) other = keyOf readers other := by
  rw [keyOf, List.getElem?_set_ne differs]
  rfl

theorem keyOf_append : keyOf (readers ++ [some ⟨none⟩]) reader = keyOf readers reader := by
  rw [keyOf, keyOf, List.getElem?_append]
  split
  · rfl
  · rename_i beyond
    rw [List.getElem?_eq_none (Nat.le_of_not_lt beyond)]
    cases reader - readers.length with
    | zero => rfl
    | succ offset => rfl

theorem lt_of_join {own : Reader} (found : readers[reader]?.join = some own) :
    reader < readers.length := by
  rw [Option.join_eq_some_iff] at found
  exact (List.getElem?_eq_some_iff.mp found).1

theorem keyOf_of_join {own : Reader} (found : readers[reader]?.join = some own) :
    keyOf readers reader = own.wakerKey := by
  rw [keyOf, found]
  rfl

theorem Parked.snoc (parked : Parked log reader waker) (apart : event.about ≠ some reader) :
    Parked (log ++ [event]) reader waker :=
  Since.snoc parked apart

theorem Waiting.of_snoc (waiting : Waiting (log ++ [event]) reader waker)
    (differs : event ≠ .polled reader waker .pending) :
    Waiting log reader waker ∧ event.about ≠ some reader ∧ event ≠ .woken waker := by
  rcases Since.of_snoc waiting with same | before
  · exact absurd same differs
  · exact before

theorem split_of_getElem? {α : Type} {list : List α} {index : ℕ} {found : α}
    (at_index : list[index]? = some found) :
    ∃ front back, list = front ++ found :: back ∧ front.length = index := by
  obtain ⟨bound, rfl⟩ := List.getElem?_eq_some_iff.mp at_index
  refine ⟨list.take index, list.drop (index + 1), ?_,
    List.length_take_of_le (Nat.le_of_lt bound)⟩
  rw [List.getElem_cons_drop, List.take_append_drop]

theorem mem_flatten_set {lists : List (List (ℕ × W))} {thread : ℕ} {first entry : ℕ × W}
    {rest : List (ℕ × W)} (at_thread : lists[thread]? = some (first :: rest))
    (mem : entry ∈ lists.flatten) :
    entry = first ∨ entry ∈ (lists.set thread rest).flatten := by
  obtain ⟨front, back, rfl, rfl⟩ := split_of_getElem? at_thread
  simp only [List.flatten_append, List.flatten_cons, List.mem_append, List.mem_cons] at mem
  rw [List.set_append_right _ _ (Nat.le_refl _), Nat.sub_self, List.set_cons_zero]
  simp only [List.flatten_append, List.flatten_cons, List.mem_append]
  tauto

theorem flatten_eraseIdx {lists : List (List (ℕ × W))} {thread : ℕ}
    (at_thread : lists[thread]? = some []) : (lists.eraseIdx thread).flatten = lists.flatten := by
  obtain ⟨front, back, rfl, rfl⟩ := split_of_getElem? at_thread
  rw [List.eraseIdx_append_of_length_le (Nat.le_refl _), Nat.sub_self, List.eraseIdx_cons_zero]
  simp

theorem modify_findIdx (waker : W) {wakers : List (ℕ × W)} {key idx : ℕ}
    (keys : (wakers.map Prod.fst).Nodup)
    (found : wakers.findIdx? (·.1 = key) = some idx) :
    (wakers.modify idx fun entry => (entry.1, waker)) =
      wakers.map fun entry => if entry.1 = key then (key, waker) else entry := by
  induction wakers generalizing idx with
  | nil => simp at found
  | cons entry wakers inductionHypothesis =>
      rw [List.map_cons, List.nodup_cons] at keys
      rw [List.findIdx?_cons] at found
      by_cases same : entry.1 = key
      · rw [if_pos (by simpa using same)] at found
        obtain rfl := Option.some.inj found
        have others : ∀ other ∈ wakers,
            (if other.1 = key then (key, waker) else other) = other := by
          intro other mem
          refine if_neg fun again => keys.1 ?_
          rw [same, ← again]
          exact List.mem_map_of_mem mem
        rw [List.modify_zero_cons, List.map_cons, if_pos same, same, List.map_congr_left others,
          List.map_id']
      · rw [if_neg (by simpa using same)] at found
        obtain ⟨before, located, rfl⟩ := Option.map_eq_some_iff.mp found
        rw [List.modify_succ_cons, List.map_cons, if_neg same, inductionHypothesis keys.2 located]

/-- The two ways to register: in place of the own entry, or under a new key. -/
theorem register_cases {state : MailboxState T W} (keys : (state.wakers.map Prod.fst).Nodup)
    (waker : W) (wakerKey : Option ℕ) :
    (∃ key, wakerKey = some key ∧ key ∈ state.wakers.map Prod.fst ∧
      state.register waker wakerKey = ({ state with
        wakers := state.wakers.map fun entry => if entry.1 = key then (key, waker) else entry },
        wakerKey)) ∨
    (∀ key, wakerKey = some key → key ∉ state.wakers.map Prod.fst) ∧
      state.register waker wakerKey = ({ state with
        nextKey := state.nextKey + 1
        wakers := state.wakers ++ [(state.nextKey, waker)] }, some state.nextKey) := by
  rw [MailboxState.register]
  cases existing : state.existing wakerKey with
  | some idx =>
      obtain ⟨key, rfl, found⟩ := Option.bind_eq_some_iff.mp existing
      refine .inl ⟨key, rfl, ?_, congrArg
        (fun wakers => ({ state with wakers := wakers }, some key))
        (modify_findIdx waker keys found)⟩
      obtain ⟨bound, same, -⟩ := List.findIdx?_eq_some_iff_getElem.mp found
      exact List.mem_map.mpr ⟨_, List.getElem_mem bound, by simpa using same⟩
  | none =>
      refine .inr ⟨fun key same mem => ?_, rfl⟩
      subst same
      obtain ⟨entry, present, rfl⟩ := List.mem_map.mp mem
      have missing : state.wakers.findIdx? (·.1 = entry.1) = none := existing
      simpa using List.findIdx?_eq_none_iff.mp missing entry present

end AimDb.Tokio.Mailbox
