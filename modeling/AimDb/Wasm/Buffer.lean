import AimDb.Transition.Monitor
import AimDb.Transition.Runs

/-!
# The browser buffer

One thread pushes, subscribes and reads, so every call is a step of its own.
A ring keeps the newest values and counts what was pushed; a reader of it holds
the number of the value it reads next.
-/

namespace AimDb.Wasm.Buffer

variable {T W : Type}

inductive BufferCfg where
  | spmcRing (capacity : ℕ)
  | singleLatest
  | mailbox
  deriving DecidableEq, Repr

inductive WasmBufferInner (T W : Type) where
  /-- The oldest value first; `writeSeq` counts the values pushed. -/
  | spmcRing (ring : List T) (capacity writeSeq : ℕ) (wakers : List W)
  | singleLatest (value : Option T) (version : ℕ) (wakers : List W)
  | mailbox (slot : Option T) (wakers : List W)
  deriving DecidableEq, Repr

inductive ReaderState where
  | spmcRing (readSeq : ℕ)
  | singleLatest (lastSeenVersion : ℕ)
  | mailbox
  deriving DecidableEq, Repr

/-- What a read gives: a value, `BufferLagged`, `BufferEmpty`, or no return at all. -/
inductive Recv (T : Type) where
  | ok (value : T)
  | lagged (lagCount : ℕ)
  | empty
  | panicked
  deriving DecidableEq, Repr

namespace WasmBufferInner

def new : BufferCfg → WasmBufferInner T W
  | .spmcRing capacity => .spmcRing [] capacity 0 []
  | .singleLatest => .singleLatest none 0 []
  | .mailbox => .mailbox none []

def wakers : WasmBufferInner T W → List W
  | spmcRing _ _ _ wakers => wakers
  | singleLatest _ _ wakers => wakers
  | mailbox _ wakers => wakers

def setWakers (wakers : List W) : WasmBufferInner T W → WasmBufferInner T W
  | spmcRing ring capacity writeSeq _ => spmcRing ring capacity writeSeq wakers
  | singleLatest value version _ => singleLatest value version wakers
  | mailbox slot _ => mailbox slot wakers

def push (value : T) : WasmBufferInner T W → WasmBufferInner T W × List W
  | spmcRing ring capacity writeSeq wakers =>
      let kept := if capacity ≤ ring.length then ring.tail else ring
      (spmcRing (kept ++ [value]) capacity (writeSeq + 1) [], wakers)
  | singleLatest _ version wakers => (singleLatest (some value) (version + 1) [], wakers)
  | mailbox _ wakers => (mailbox (some value) [], wakers)

def subscribe : WasmBufferInner T W → ReaderState
  | spmcRing _ _ writeSeq _ => .spmcRing writeSeq
  -- the current value counts as unseen
  | singleLatest _ _ _ => .singleLatest 0
  | mailbox _ _ => .mailbox

def tryRecv (inner : WasmBufferInner T W) (state : ReaderState) :
    Recv T × WasmBufferInner T W × ReaderState :=
  match inner, state with
  | spmcRing ring _ writeSeq _, .spmcRing readSeq =>
      if writeSeq ≤ readSeq then (.empty, inner, state)
      else
        let oldestSeq := writeSeq - ring.length
        if readSeq < oldestSeq then (.lagged (oldestSeq - readSeq), inner, .spmcRing oldestSeq)
        else
          match ring[readSeq - oldestSeq]? with
          | some value => (.ok value, inner, .spmcRing (readSeq + 1))
          | none => (.panicked, inner, state)
  | singleLatest value version _, .singleLatest lastSeenVersion =>
      if version = lastSeenVersion then (.empty, inner, state)
      else
        match value with
        | some v => (.ok v, inner, .singleLatest version)
        | none => (.empty, inner, state)
  | mailbox slot wakers, .mailbox =>
      match slot with
      | some value => (.ok value, mailbox none wakers, state)
      | none => (.empty, inner, state)
  | _, _ => (.panicked, inner, state)

/-- A poll is ready with what it read, or registers the waker unless one is there
already that wakes the same task. -/
def pollRecv (willWake : W → W → Bool) (waker : W) (inner : WasmBufferInner T W)
    (state : ReaderState) : Option (Recv T) × WasmBufferInner T W × ReaderState :=
  match inner.tryRecv state with
  | (.empty, inner, state) =>
      let wakers := inner.wakers
      let registered := if wakers.any (willWake · waker) then wakers else wakers ++ [waker]
      (none, inner.setWakers registered, state)
  | (recv, inner, state) => (some recv, inner, state)

end WasmBufferInner

structure Buffered (T W : Type) where
  inner : WasmBufferInner T W
  readers : List ReaderState
  deriving DecidableEq, Repr

inductive Action (T W : Type) where
  | push (value : T)
  | subscribe
  | tryRecv (reader : ℕ)
  | pollRecv (reader : ℕ) (waker : W)
  deriving DecidableEq, Repr

inductive Event (T W : Type) where
  | pushed (value : T) (woken : List W)
  | subscribed
  | received (reader : ℕ) (recv : Recv T)
  | parked (reader : ℕ) (waker : W)
  deriving DecidableEq, Repr

variable (willWake : W → W → Bool)

def Buffered.step (buffered : Buffered T W) :
    Action T W → Option (Buffered T W × List (Event T W))
  | .push value =>
      let (inner, woken) := buffered.inner.push value
      some ({ buffered with inner }, [.pushed value woken])
  | .subscribe =>
      some ({ buffered with readers := buffered.readers ++ [buffered.inner.subscribe] },
        [.subscribed])
  | .tryRecv reader =>
      buffered.readers[reader]?.map fun state =>
        let (recv, inner, after) := buffered.inner.tryRecv state
        (⟨inner, buffered.readers.set reader after⟩, [.received reader recv])
  | .pollRecv reader waker =>
      buffered.readers[reader]?.map fun state =>
        let (recv, inner, after) := buffered.inner.pollRecv willWake waker state
        (⟨inner, buffered.readers.set reader after⟩,
          [match recv with
            | some recv => .received reader recv
            | none => .parked reader waker])

def Buffered.new (cfg : BufferCfg) : Buffered T W := ⟨.new cfg, []⟩

/-- A buffer after a history of calls, in any order. -/
abbrev Reached (cfg : BufferCfg) : Buffered T W → List (Event T W) → Prop :=
  Transition.Reachable (Buffered.step willWake) (Buffered.new cfg)

open Transition (Monitor)

/-- One read, or one pending poll, which found nothing. -/
structure Read (T : Type) where
  reader : ℕ
  pushed : List T
  recv : Recv T
  deriving DecidableEq, Repr

structure History (T W : Type) where
  pushed : List T
  /-- For every reader how many values had been pushed when it subscribed. -/
  joined : List ℕ
  reads : List (Read T)
  /-- The wakers of the polls that were pending since the last push. -/
  waiting : List W
  deriving DecidableEq, Repr

namespace History

def empty : History T W := ⟨[], [], [], []⟩

def read (history : History T W) (reader : ℕ) (recv : Recv T) : History T W :=
  { history with reads := history.reads ++ [⟨reader, history.pushed, recv⟩] }

def after (history : History T W) : Event T W → History T W
  | .pushed value _ => { history with pushed := history.pushed ++ [value], waiting := [] }
  | .subscribed => { history with joined := history.joined ++ [history.pushed.length] }
  | .received reader recv => history.read reader recv
  | .parked reader waker =>
      { history.read reader .empty with waiting := history.waiting ++ [waker] }

def of (log : List (Event T W)) : History T W := log.foldl after empty

def readsOf (history : History T W) (reader : ℕ) : List (Read T) :=
  history.reads.filter (·.reader = reader)

end History

/-- How many values a read accounts for. -/
def Recv.span : Recv T → ℕ
  | ok _ => 1
  | lagged lagCount => lagCount
  | empty | panicked => 0

/-- A ring's reads account for the values one after the other.  A reader that stands
at `next` is given that value while it is among the newest `capacity`, is told how many
it missed once it is not, and reads empty when there is none. -/
def relay (capacity : ℕ) : Monitor ℕ (Read T) where
  track next read := next + read.recv.span
  permits next read :=
    match read.recv with
    | .ok value => read.pushed[next]? = some value ∧ read.pushed.length ≤ next + capacity
    | .lagged lagCount => 0 < lagCount ∧ next + lagCount + capacity = read.pushed.length
    | .empty => next = read.pushed.length
    | .panicked => False

/-- A slot gives the newest value unless its last value was that one. -/
def latest : Monitor ℕ (Read T) where
  track seen read :=
    match read.recv with
    | .ok _ => read.pushed.length
    | _ => seen
  permits seen read :=
    match read.recv with
    | .ok value => seen < read.pushed.length ∧ read.pushed.getLast? = some value
    | .empty => seen = read.pushed.length
    | _ => False

/-- The reads are permitted, and account for no more than `count` values. -/
structure Told (monitor : Monitor ℕ (Read T)) (start : ℕ) (reads : List (Read T))
    (count : ℕ) :
    Prop where
  permitted : monitor.Accepts start reads
  bounded : monitor.remember start reads ≤ count

/-- A ring's reader starts at the values after its subscription, a reader of the latest
value has seen none, and the readers of a mailbox share the one slot. -/
def History.Owed (history : History T W) : BufferCfg → Prop
  | .spmcRing capacity => ∀ reader joined, history.joined[reader]? = some joined →
      Told (relay capacity) joined (history.readsOf reader) history.pushed.length
  | .singleLatest => ∀ reader, Told latest 0 (history.readsOf reader) history.pushed.length
  | .mailbox => Told latest 0 history.reads history.pushed.length

variable (willWake : W → W → Bool)

def Wakes (wakers : List W) (waker : W) : Prop :=
  ∃ registered ∈ wakers, registered = waker ∨ willWake registered waker = true

structure Contract (cfg : BufferCfg) (buffered : Buffered T W) (log : List (Event T W)) : Prop where
  owed : (History.of log).Owed cfg
  registered : ∀ waker ∈ (History.of log).waiting, Wakes willWake buffered.inner.wakers waker
  woken : ∀ {before value woken rest}, log = before ++ .pushed value woken :: rest →
    ∀ waker ∈ (History.of before).waiting, Wakes willWake woken waker

namespace History

variable (history : History T W)

def inner (wakers : List W) : BufferCfg → WasmBufferInner T W
  | .spmcRing capacity =>
      .spmcRing (history.pushed.drop (history.pushed.length - capacity)) capacity
        history.pushed.length wakers
  | .singleLatest => .singleLatest history.pushed.getLast? history.pushed.length wakers
  | .mailbox =>
      .mailbox
        (if latest.remember 0 history.reads = history.pushed.length then none
          else history.pushed.getLast?)
        wakers

def reader (number joined : ℕ) : BufferCfg → ReaderState
  | .spmcRing capacity => .spmcRing ((relay capacity).remember joined (history.readsOf number))
  | .singleLatest => .singleLatest (latest.remember 0 (history.readsOf number))
  | .mailbox => .mailbox

variable {history} {wakers : List W} {cfg : BufferCfg}

@[simp] theorem inner_wakers : (history.inner wakers cfg).wakers = wakers := by
  cases cfg <;> rfl

@[simp] theorem inner_setWakers (others : List W) :
    (history.inner wakers cfg).setWakers others = history.inner others cfg := by
  cases cfg <;> rfl

theorem readsOf_read_self {number : ℕ} {recv : Recv T} :
    (history.read number recv).readsOf number =
      history.readsOf number ++ [⟨number, history.pushed, recv⟩] := by
  simp [readsOf, read]

theorem readsOf_read_of_ne {number other : ℕ} {recv : Recv T} (differs : number ≠ other) :
    (history.read number recv).readsOf other = history.readsOf other := by
  simp [readsOf, read, differs]

@[simp] theorem of_append (log more : List (Event T W)) :
    of (log ++ more) = more.foldl after (of log) :=
  List.foldl_append

end History

theorem Told.start {monitor : Monitor ℕ (Read T)} {first count : ℕ} (le : first ≤ count) :
    Told monitor first [] count :=
  ⟨trivial, le⟩

theorem Told.mono {monitor : Monitor ℕ (Read T)} {start count more : ℕ} {reads : List (Read T)}
    (told : Told monitor start reads count) (le : count ≤ more) : Told monitor start reads more :=
  ⟨told.permitted, Nat.le_trans told.bounded le⟩

theorem Told.snoc {monitor : Monitor ℕ (Read T)} {start count : ℕ} {reads : List (Read T)}
    {read : Read T} (told : Told monitor start reads count)
    (permits : monitor.permits (monitor.remember start reads) read)
    (bounded : monitor.track (monitor.remember start reads) read ≤ count) :
    Told monitor start (reads ++ [read]) count :=
  ⟨Monitor.accepts_append.mpr ⟨told.permitted, permits, trivial⟩, by simpa using bounded⟩

end AimDb.Wasm.Buffer
