import AimDb.Wasm.Buffer

/-!
# What a browser buffer delivers

The buffer is at all times the one its history leaves, so what a read finds is
read off the history.
-/

namespace AimDb.Wasm.Buffer

open Transition

variable {T W : Type}

theorem tryRecv_ring {pushed : List T} {capacity next : ℕ} (wakers : List W) (reader : ℕ)
    (bounded : next ≤ pushed.length)
    {ring : WasmBufferInner T W}
    (isRing : ring = .spmcRing (pushed.drop (pushed.length - capacity)) capacity pushed.length
      wakers) :
    ∃ recv, ring.tryRecv (.spmcRing next) = (recv, ring, .spmcRing (next + recv.span)) ∧
      (relay capacity).permits next ⟨reader, pushed, recv⟩ ∧
      next + recv.span ≤ pushed.length := by
  subst isRing
  have oldest : pushed.length - (pushed.drop (pushed.length - capacity)).length =
      pushed.length - capacity := by
    rw [List.length_drop]
    omega
  by_cases caught : pushed.length ≤ next
  · refine ⟨.empty, by simp [WasmBufferInner.tryRecv, caught, Recv.span], ?_, bounded⟩
    exact Nat.le_antisymm bounded caught
  · by_cases behind : next < pushed.length - capacity
    · refine ⟨.lagged (pushed.length - capacity - next), ?_, ⟨?_, ?_⟩, ?_⟩
      · simp only [WasmBufferInner.tryRecv, if_neg caught, oldest, if_pos behind, Recv.span]
        rw [Nat.add_sub_cancel' (Nat.le_of_lt behind)]
      · exact Nat.sub_pos_of_lt behind
      · change next + (pushed.length - capacity - next) + capacity = pushed.length
        omega
      · change next + (pushed.length - capacity - next) ≤ pushed.length
        omega
    · have present : next < pushed.length := Nat.lt_of_not_le caught
      have found : (pushed.drop (pushed.length - capacity))[next - (pushed.length - capacity)]? =
          some pushed[next] := by
        rw [List.getElem?_drop, Nat.add_sub_cancel' (Nat.le_of_not_lt behind)]
        exact List.getElem?_eq_getElem present
      refine ⟨.ok pushed[next], ?_, ⟨List.getElem?_eq_getElem present, ?_⟩, present⟩
      · simp only [WasmBufferInner.tryRecv, if_neg caught, oldest, if_neg behind, found, Recv.span]
      · change pushed.length ≤ next + capacity
        omega

theorem getLast?_of_lt {pushed : List T} {seen : ℕ} (lt : seen < pushed.length) :
    ∃ value, pushed.getLast? = some value :=
  ⟨_, List.getLast?_eq_some_getLast (List.ne_nil_of_length_pos (Nat.zero_lt_of_lt lt))⟩

theorem tryRecv_latest {pushed : List T} {seen : ℕ} (wakers : List W) (reader : ℕ)
    (bounded : seen ≤ pushed.length) {slot : WasmBufferInner T W}
    (isSlot : slot = .singleLatest pushed.getLast? pushed.length wakers) :
    ∃ recv, slot.tryRecv (.singleLatest seen) =
        (recv, slot, .singleLatest (latest.track seen ⟨reader, pushed, recv⟩)) ∧
      latest.permits seen ⟨reader, pushed, recv⟩ ∧
      latest.track seen ⟨reader, pushed, recv⟩ ≤ pushed.length := by
  subst isSlot
  by_cases caught : pushed.length = seen
  · exact ⟨.empty, by simp [WasmBufferInner.tryRecv, caught, latest], caught.symm, bounded⟩
  · have unseen : seen < pushed.length := Nat.lt_of_le_of_ne bounded (Ne.symm caught)
    obtain ⟨value, newest⟩ := getLast?_of_lt unseen
    refine ⟨.ok value, ?_, ⟨unseen, newest⟩, Nat.le_refl _⟩
    simp [WasmBufferInner.tryRecv, caught, newest, latest]

theorem tryRecv_mailbox {pushed : List T} {seen : ℕ} (wakers : List W) (reader : ℕ)
    (bounded : seen ≤ pushed.length) {slot : ℕ → WasmBufferInner T W}
    (isSlot : ∀ seen, slot seen =
      .mailbox (if seen = pushed.length then none else pushed.getLast?) wakers) :
    ∃ recv, (slot seen).tryRecv .mailbox =
        (recv, slot (latest.track seen ⟨reader, pushed, recv⟩), .mailbox) ∧
      latest.permits seen ⟨reader, pushed, recv⟩ ∧
      latest.track seen ⟨reader, pushed, recv⟩ ≤ pushed.length := by
  by_cases caught : seen = pushed.length
  · exact ⟨.empty, by simp [WasmBufferInner.tryRecv, isSlot, caught, latest], caught, bounded⟩
  · have unseen : seen < pushed.length := Nat.lt_of_le_of_ne bounded caught
    obtain ⟨value, newest⟩ := getLast?_of_lt unseen
    refine ⟨.ok value, ?_, ⟨unseen, newest⟩, Nat.le_refl _⟩
    simp [WasmBufferInner.tryRecv, isSlot, caught, newest, latest]

variable {history : History T W} {cfg : BufferCfg} {wakers : List W} {reader joined : ℕ}

/-- A read gives what it owes its reader and leaves the buffer its own history leaves. -/
structure ReadsOn (history : History T W) (cfg : BufferCfg) (wakers : List W) (reader joined : ℕ)
    (recv : Recv T) : Prop where
  returned : (history.inner wakers cfg).tryRecv (history.reader reader joined cfg) =
    (recv, (history.read reader recv).inner wakers cfg,
      (history.read reader recv).reader reader joined cfg)
  owed : (history.read reader recv).Owed cfg

theorem History.Owed.tryRecv (wakers : List W) (owed : history.Owed cfg)
    (present : history.joined[reader]? = some joined) :
    ∃ recv, ReadsOn history cfg wakers reader joined recv := by
  cases cfg with
  | spmcRing capacity =>
      have told := owed reader joined present
      obtain ⟨recv, returned, permits, bounded⟩ :=
        tryRecv_ring wakers reader told.bounded rfl
      refine ⟨recv, returned.trans ?_, ?_⟩
      · simp only [History.reader, History.readsOf_read_self, Monitor.remember_append]
        rfl
      · intro other start joined'
        by_cases same : reader = other
        · subst same
          obtain rfl : joined = start := Option.some.inj (present.symm.trans joined')
          rw [History.readsOf_read_self]
          exact told.snoc permits bounded
        · rw [History.readsOf_read_of_ne same]
          exact owed other start joined'
  | singleLatest =>
      obtain ⟨recv, returned, permits, bounded⟩ :=
        tryRecv_latest wakers reader (owed reader).bounded rfl
      refine ⟨recv, returned.trans ?_, ?_⟩
      · simp only [History.reader, History.readsOf_read_self, Monitor.remember_append]
        rfl
      · intro other
        by_cases same : reader = other
        · subst same
          rw [History.readsOf_read_self]
          exact (owed reader).snoc permits bounded
        · rw [History.readsOf_read_of_ne same]
          exact owed other
  | mailbox =>
      obtain ⟨recv, returned, permits, bounded⟩ :=
        tryRecv_mailbox wakers reader (Told.bounded owed) fun _ => rfl
      refine ⟨recv, returned.trans ?_, Told.snoc owed permits bounded⟩
      simp only [History.inner, History.reader, History.read, Monitor.remember_append]
      rfl

structure Image (cfg : BufferCfg) (buffered : Buffered T W) (history : History T W) : Prop where
  inner : buffered.inner = history.inner buffered.inner.wakers cfg
  readers : ∀ number, buffered.readers[number]? =
    history.joined[number]?.map fun joined => history.reader number joined cfg
  known : ∀ read ∈ history.reads, read.reader < history.joined.length
  owed : history.Owed cfg

theorem push_ring {pushed : List T} {capacity : ℕ} (sound : 1 ≤ capacity) (value : T) :
    (if capacity ≤ (pushed.drop (pushed.length - capacity)).length then
        (pushed.drop (pushed.length - capacity)).tail
      else pushed.drop (pushed.length - capacity)) ++ [value] =
      (pushed ++ [value]).drop ((pushed ++ [value]).length - capacity) := by
  rw [List.length_append, List.length_singleton, List.length_drop]
  by_cases full : capacity ≤ pushed.length
  · rw [if_pos (by omega), List.tail_drop, Nat.sub_add_comm full]
    rw [List.drop_append_of_le_length (by omega)]
  · rw [if_neg (by omega), Nat.sub_eq_zero_of_le (by omega), Nat.sub_eq_zero_of_le (by omega)]
    rfl

theorem History.inner_push (sound : ∀ capacity, cfg = .spmcRing capacity → 1 ≤ capacity)
    (owed : history.Owed cfg) (value : T) :
    (history.inner wakers cfg).push value =
      ((history.after (.pushed value wakers)).inner [] cfg, wakers) := by
  cases cfg with
  | spmcRing capacity =>
      simp only [History.inner, WasmBufferInner.push, push_ring (sound capacity rfl)]
      simp [History.after]
  | singleLatest => simp [History.inner, WasmBufferInner.push, History.after]
  | mailbox =>
      have bounded : latest.remember 0 history.reads ≤ history.pushed.length := Told.bounded owed
      have fresh : latest.remember 0 history.reads ≠ history.pushed.length + 1 := by omega
      simp [History.inner, WasmBufferInner.push, History.after, fresh]

theorem History.Owed.push (owed : history.Owed cfg) (value : T) (woken : List W) :
    (history.after (.pushed value woken)).Owed cfg := by
  have grows : history.pushed.length ≤ (history.after (.pushed value woken)).pushed.length := by
    simp [History.after]
  cases cfg with
  | spmcRing capacity => exact fun reader joined present => (owed reader joined present).mono grows
  | singleLatest => exact fun reader => (owed reader).mono grows
  | mailbox => exact Told.mono owed grows

theorem Image.new (cfg : BufferCfg) : Image cfg (Buffered.new cfg : Buffered T W) .empty where
  inner := by
    cases cfg with
    | spmcRing capacity => simp [Buffered.new, WasmBufferInner.new, History.inner, History.empty,
        WasmBufferInner.wakers]
    | singleLatest => rfl
    | mailbox => rfl
  readers _ := rfl
  known _ mem := absurd mem List.not_mem_nil
  owed := by
    cases cfg with
    | spmcRing capacity => exact fun _ _ present => absurd present (by simp [History.empty])
    | singleLatest => exact fun _ => Told.start (Nat.le_refl 0)
    | mailbox => exact Told.start (Nat.le_refl 0)

variable {buffered : Buffered T W}

theorem Image.push (image : Image cfg buffered history)
    (sound : ∀ capacity, cfg = .spmcRing capacity → 1 ≤ capacity) (value : T)
    (woken : List W) :
    Image cfg ⟨(buffered.inner.push value).1, buffered.readers⟩
      (history.after (.pushed value woken)) := by
  have pushed : (buffered.inner.push value).1 =
      (history.after (.pushed value woken)).inner [] cfg := by
    rw [image.inner, History.inner_push sound image.owed]
    rfl
  exact
    { inner := by rw [pushed, History.inner_wakers]
      readers := image.readers
      known := image.known
      owed := image.owed.push value woken }

theorem Image.readsOf_fresh (image : Image cfg buffered history) :
    history.readsOf history.joined.length = [] := by
  refine List.filter_eq_nil_iff.mpr fun read mem => ?_
  have := image.known read mem
  simp
  omega

theorem History.inner_subscribe (fresh : history.readsOf history.joined.length = []) :
    (history.inner wakers cfg).subscribe =
      history.reader history.joined.length history.pushed.length cfg := by
  cases cfg with
  | spmcRing capacity => simp [History.inner, History.reader, WasmBufferInner.subscribe, fresh]
  | singleLatest => simp [History.inner, History.reader, WasmBufferInner.subscribe, fresh]
  | mailbox => rfl

theorem Image.length_readers (image : Image cfg buffered history) :
    buffered.readers.length = history.joined.length := by
  refine Nat.le_antisymm (Nat.le_of_not_lt fun lt => ?_) (Nat.le_of_not_lt fun lt => ?_)
  · have := image.readers history.joined.length
    simp [List.getElem?_eq_getElem lt] at this
  · have := image.readers buffered.readers.length
    simp [List.getElem?_eq_getElem lt] at this

theorem Image.subscribe (image : Image cfg buffered history) :
    Image cfg { buffered with readers := buffered.readers ++ [buffered.inner.subscribe] }
      (history.after .subscribed) where
  inner := image.inner
  readers number := by
    have fresh := image.readsOf_fresh
    have length := image.length_readers
    change (buffered.readers ++ [buffered.inner.subscribe])[number]? =
      (history.joined ++ [history.pushed.length])[number]?.map _
    rw [image.inner, History.inner_subscribe fresh, List.getElem?_append, List.getElem?_append,
      length]
    by_cases old : number < history.joined.length
    · rw [if_pos old, if_pos old]
      exact image.readers number
    · rw [if_neg old, if_neg old]
      cases offset : number - history.joined.length with
      | zero =>
          obtain rfl : number = history.joined.length := by omega
          rfl
      | succ offset => rfl
  known read mem := by
    have := image.known read mem
    simp [History.after]
    omega
  owed := by
    have owed := image.owed
    cases cfg with
    | spmcRing capacity =>
        intro reader joined present
        change (history.joined ++ [history.pushed.length])[reader]? = some joined at present
        by_cases old : reader < history.joined.length
        · rw [List.getElem?_append_left old] at present
          exact owed reader joined present
        · have bound := (List.getElem?_eq_some_iff.mp present).1
          obtain rfl : reader = history.joined.length := by
            simp at bound
            omega
          obtain rfl : history.pushed.length = joined := by simpa using present
          change Told (relay capacity) history.pushed.length
            (history.readsOf history.joined.length) history.pushed.length
          rw [image.readsOf_fresh]
          exact Told.start (Nat.le_refl _)
    | singleLatest => exact owed
    | mailbox => exact owed

theorem Image.read (image : Image cfg buffered history)
    (present : history.joined[reader]? = some joined) {recv : Recv T} (others : List W)
    (owed : (history.read reader recv).Owed cfg) :
    Image cfg
      ⟨(history.read reader recv).inner others cfg,
        buffered.readers.set reader ((history.read reader recv).reader reader joined cfg)⟩
      (history.read reader recv) where
  inner := by rw [History.inner_wakers]
  readers number := by
    have bound : reader < buffered.readers.length := by
      rw [image.length_readers]
      exact (List.getElem?_eq_some_iff.mp present).1
    by_cases same : reader = number
    · subst same
      change (buffered.readers.set reader _)[reader]? = history.joined[reader]?.map _
      rw [List.getElem?_set_self bound, present]
      rfl
    · change (buffered.readers.set reader _)[number]? = history.joined[number]?.map _
      rw [List.getElem?_set_ne same, image.readers number]
      cases cfg with
      | spmcRing capacity => simp only [History.reader, History.readsOf_read_of_ne same]
      | singleLatest => simp only [History.reader, History.readsOf_read_of_ne same]
      | mailbox => rfl
  known read mem := by
    rcases List.mem_append.mp mem with old | new
    · exact image.known read old
    · obtain rfl := List.mem_singleton.mp new
      exact (List.getElem?_eq_some_iff.mp present).1
  owed := owed

theorem Image.present (image : Image cfg buffered history) {state : ReaderState}
    (found : buffered.readers[reader]? = some state) :
    ∃ joined, history.joined[reader]? = some joined ∧
        state = history.reader reader joined cfg := by
  rw [image.readers] at found
  obtain ⟨joined, present, rfl⟩ := Option.map_eq_some_iff.mp found
  exact ⟨joined, present, rfl⟩

variable {willWake : W → W → Bool}

theorem Wakes.mono {more : List W} {waker : W} (wakes : Wakes willWake wakers waker)
    (subset : ∀ registered ∈ wakers, registered ∈ more) : Wakes willWake more waker := by
  obtain ⟨registered, mem, same⟩ := wakes
  exact ⟨registered, subset registered mem, same⟩

def registerWaker (willWake : W → W → Bool) (wakers : List W) (waker : W) : List W :=
  if wakers.any (willWake · waker) then wakers else wakers ++ [waker]

theorem wakes_registerWaker (waker : W) :
    Wakes willWake (registerWaker willWake wakers waker) waker := by
  rw [registerWaker]
  by_cases any : wakers.any (willWake · waker) = true
  · obtain ⟨registered, mem, wakes⟩ := List.any_eq_true.mp any
    exact ⟨registered, by rw [if_pos any]; exact mem, .inr wakes⟩
  · exact ⟨waker, by rw [if_neg any]; simp, .inl rfl⟩

theorem mem_registerWaker {waker registered : W} (mem : registered ∈ wakers) :
    registered ∈ registerWaker willWake wakers waker := by
  rw [registerWaker]
  split
  · exact mem
  · exact List.mem_append_left _ mem

theorem pollRecv_of_empty {inner inner' : WasmBufferInner T W} {state state' : ReaderState}
    (waker : W) (read : inner.tryRecv state = (.empty, inner', state')) :
    inner.pollRecv willWake waker state =
      (none, inner'.setWakers (registerWaker willWake inner'.wakers waker), state') := by
  rw [WasmBufferInner.pollRecv, read]
  rfl

theorem pollRecv_of_ready {inner inner' : WasmBufferInner T W} {state state' : ReaderState}
    {recv : Recv T} (waker : W) (read : inner.tryRecv state = (recv, inner', state'))
    (ready : recv ≠ .empty) :
    inner.pollRecv willWake waker state = (some recv, inner', state') := by
  rw [WasmBufferInner.pollRecv, read]
  cases recv with
  | empty => exact absurd rfl ready
  | ok value => rfl
  | lagged lagCount => rfl
  | panicked => rfl

structure Follows (willWake : W → W → Bool) (cfg : BufferCfg) (buffered : Buffered T W)
    (log : List (Event T W)) : Prop where
  image : Image cfg buffered (History.of log)
  registered : ∀ waker ∈ (History.of log).waiting, Wakes willWake buffered.inner.wakers waker
  woken : ∀ {before value woken rest}, log = before ++ .pushed value woken :: rest →
    ∀ waker ∈ (History.of before).waiting, Wakes willWake woken waker

theorem Follows.contract {log : List (Event T W)} (follows : Follows willWake cfg buffered log) :
    Contract willWake cfg buffered log :=
  ⟨follows.image.owed, follows.registered, follows.woken⟩

variable {log : List (Event T W)}

theorem Follows.woken_snoc (follows : Follows willWake cfg buffered log) {event : Event T W}
    (wakes : ∀ value woken, event = .pushed value woken →
      ∀ waker ∈ (History.of log).waiting, Wakes willWake woken waker)
    {before : List (Event T W)} {value : T} {woken : List W} {rest : List (Event T W)}
    (split : log ++ [event] = before ++ .pushed value woken :: rest) :
    ∀ waker ∈ (History.of before).waiting, Wakes willWake woken waker := by
  rcases split_append split with ⟨tail, old, -⟩ | ⟨front, rfl, new⟩
  · exact follows.woken old
  · cases front with
    | nil =>
        obtain ⟨rfl, -⟩ := List.cons.inj new
        rw [List.append_nil]
        exact wakes value woken rfl
    | cons first front => simp at new

theorem Follows.push (follows : Follows willWake cfg buffered log)
    (sound : ∀ capacity, cfg = .spmcRing capacity → 1 ≤ capacity) (value : T) :
    Follows willWake cfg ⟨(buffered.inner.push value).1, buffered.readers⟩
      (log ++ [.pushed value (buffered.inner.push value).2]) where
  image := by
    rw [History.of_append]
    exact follows.image.push sound value (buffered.inner.push value).2
  registered waker mem := by
    rw [History.of_append] at mem
    exact absurd mem List.not_mem_nil
  woken split := by
    refine follows.woken_snoc (fun pushed woken same waker mem => ?_) split
    obtain ⟨-, rfl⟩ := Event.pushed.inj same
    have wakes := follows.registered waker mem
    rw [follows.image.inner, History.inner_push sound follows.image.owed]
    exact wakes

theorem Follows.subscribe (follows : Follows willWake cfg buffered log) :
    Follows willWake cfg { buffered with readers := buffered.readers ++ [buffered.inner.subscribe] }
      (log ++ [.subscribed]) where
  image := by
    rw [History.of_append]
    exact follows.image.subscribe
  registered waker mem := by
    rw [History.of_append] at mem
    exact follows.registered waker mem
  woken split := by
    refine follows.woken_snoc (fun value woken same => ?_) split
    cases same

theorem Follows.received (follows : Follows willWake cfg buffered log)
    (present : (History.of log).joined[reader]? = some joined) {recv : Recv T}
    (reads : ReadsOn (History.of log) cfg buffered.inner.wakers reader joined recv) :
    Follows willWake cfg
      ⟨((History.of log).read reader recv).inner buffered.inner.wakers cfg,
        buffered.readers.set reader
          (((History.of log).read reader recv).reader reader joined cfg)⟩
      (log ++ [.received reader recv]) where
  image := by
    rw [History.of_append]
    exact follows.image.read present buffered.inner.wakers reads.owed
  registered waker mem := by
    rw [History.of_append] at mem
    rw [History.inner_wakers]
    exact follows.registered waker mem
  woken split := by
    refine follows.woken_snoc (fun value woken same => ?_) split
    cases same

theorem Follows.parked (follows : Follows willWake cfg buffered log)
    (present : (History.of log).joined[reader]? = some joined) (waker : W)
    (reads : ReadsOn (History.of log) cfg buffered.inner.wakers reader joined .empty) :
    Follows willWake cfg
      ⟨((History.of log).read reader .empty).inner
          (registerWaker willWake buffered.inner.wakers waker) cfg,
        buffered.readers.set reader
          (((History.of log).read reader .empty).reader reader joined cfg)⟩
      (log ++ [.parked reader waker]) where
  image := by
    rw [History.of_append]
    have image := follows.image.read present
      (registerWaker willWake buffered.inner.wakers waker) reads.owed
    exact ⟨image.inner, image.readers, image.known, image.owed⟩
  registered other mem := by
    rw [History.of_append] at mem
    rw [History.inner_wakers]
    rcases List.mem_append.mp mem with old | new
    · exact (follows.registered other old).mono fun registered => mem_registerWaker
    · obtain rfl := List.mem_singleton.mp new
      exact wakes_registerWaker other
  woken split := by
    refine follows.woken_snoc (fun value woken same => ?_) split
    cases same

theorem Follows.step (follows : Follows willWake cfg buffered log)
    (sound : ∀ capacity, cfg = .spmcRing capacity → 1 ≤ capacity) {action : Action T W}
    {after : Buffered T W} {emitted : List (Event T W)}
    (stepped : buffered.step willWake action = some (after, emitted)) :
    Follows willWake cfg after (log ++ emitted) := by
  cases action with
  | push value =>
      obtain ⟨rfl, rfl⟩ := Prod.mk.inj (Option.some.inj stepped)
      exact follows.push sound value
  | subscribe =>
      obtain ⟨rfl, rfl⟩ := Prod.mk.inj (Option.some.inj stepped)
      exact follows.subscribe
  | tryRecv reader =>
      obtain ⟨state, found, same⟩ := Option.map_eq_some_iff.mp stepped
      obtain ⟨joined, present, rfl⟩ := follows.image.present found
      obtain ⟨recv, reads⟩ := follows.image.owed.tryRecv buffered.inner.wakers present
      rw [follows.image.inner, reads.returned] at same
      obtain ⟨rfl, rfl⟩ := Prod.mk.inj same
      exact follows.received present reads
  | pollRecv reader waker =>
      obtain ⟨state, found, same⟩ := Option.map_eq_some_iff.mp stepped
      obtain ⟨joined, present, rfl⟩ := follows.image.present found
      obtain ⟨recv, reads⟩ := follows.image.owed.tryRecv buffered.inner.wakers present
      rw [follows.image.inner] at same
      by_cases pending : recv = .empty
      · subst pending
        rw [pollRecv_of_empty waker reads.returned, History.inner_wakers,
          History.inner_setWakers] at same
        obtain ⟨rfl, rfl⟩ := Prod.mk.inj same
        exact follows.parked present waker reads
      · rw [pollRecv_of_ready waker reads.returned pending] at same
        obtain ⟨rfl, rfl⟩ := Prod.mk.inj same
        exact follows.received present reads

theorem Follows.start : Follows willWake cfg (Buffered.new cfg : Buffered T W) [] where
  image := .new cfg
  registered _ mem := absurd mem List.not_mem_nil
  woken split := by simp at split

theorem Reached.follows (sound : ∀ capacity, cfg = .spmcRing capacity → 1 ≤ capacity)
    (reached : Reached willWake cfg buffered log) : Follows willWake cfg buffered log :=
  reached.invariant (Follows willWake cfg) .start
    fun _ _ stepped follows => follows.step sound stepped

/-- Whatever the order of the calls, every reader is told what the buffer's kind owes it,
and every waker that waits is registered until the push that wakes it. -/
theorem buffer_delivers (sound : ∀ capacity, cfg = .spmcRing capacity → 1 ≤ capacity)
    (reached : Reached willWake cfg buffered log) : Contract willWake cfg buffered log :=
  (reached.follows sound).contract

/-- Values and whether they were overwritten, with every run of overwritten ones told once,
by its length; `run` are told with the next. -/
def collapse (run : ℕ) : List (T × Bool) → List (Recv T)
  | [] => if run = 0 then [] else [.lagged run]
  | (_, true) :: rest => collapse (run + 1) rest
  | (value, false) :: rest =>
      (if run = 0 then [] else [.lagged run]) ++ .ok value :: collapse 0 rest

theorem collapse_ne_lagged_lagged (run : ℕ) (marked : List (T × Bool)) (first second : ℕ)
    (rest : List (Recv T)) : collapse run marked ≠ .lagged first :: .lagged second :: rest := by
  induction marked generalizing run with
  | nil =>
      rw [collapse]
      split <;> simp
  | cons head marked inductionHypothesis =>
      obtain ⟨value, overwritten⟩ := head
      cases overwritten with
      | true => exact inductionHypothesis (run + 1)
      | false =>
          rw [collapse]
          split <;> simp

def Recv.isOutcome : Recv T → Bool
  | empty => false
  | _ => true

def History.outcomes (history : History T W) (reader : ℕ) : List (Recv T) :=
  ((history.readsOf reader).map Read.recv).filter Recv.isOutcome

/-- Seven values through a ring of two, the reader looking in after five and after seven. -/
def sevenThroughTwo : List (Action ℕ Unit) :=
  .subscribe :: ([0, 1, 2, 3, 4].map .push ++ .tryRecv 0 :: [5, 6].map .push ++
    [.tryRecv 0, .tryRecv 0])

def afterSeven : Buffered ℕ Unit × List (Event ℕ Unit) :=
  (replay (Buffered.step fun _ _ => false) (Buffered.new (.spmcRing 2)) sevenThroughTwo).getD
    (Buffered.new (.spmcRing 2), [])

theorem reached_afterSeven :
    Reached (fun _ _ => false) (.spmcRing 2) afterSeven.1 afterSeven.2 := by
  have replayed : replay (Buffered.step fun _ _ => false) (Buffered.new (.spmcRing 2))
      sevenThroughTwo = some afterSeven := rfl
  exact reachable_of_replay replayed

theorem buffer_delivers_afterSeven :
    Contract (fun _ _ => false) (.spmcRing 2) afterSeven.1 afterSeven.2 :=
  buffer_delivers (fun _ same => by cases same; decide) reached_afterSeven

/-- Five values in succession were overwritten, and the reader is told of three and of two. -/
theorem lags_twice_for_one_run :
    ¬ ∀ (buffered : Buffered ℕ Unit) (log : List (Event ℕ Unit)),
      Reached (fun _ _ => false) (.spmcRing 2) buffered log →
      ∀ reader joined, (History.of log).joined[reader]? = some joined →
        ∃ marked : List (ℕ × Bool),
          List.IsPrefix (marked.map Prod.fst) ((History.of log).pushed.drop joined) ∧
            (History.of log).outcomes reader = collapse 0 marked := by
  intro claimed
  obtain ⟨marked, -, told⟩ := claimed _ _ reached_afterSeven 0 0 (by decide)
  have outcomes : (History.of afterSeven.2).outcomes 0 = [.lagged 3, .lagged 2, .ok 5] := by decide
  exact collapse_ne_lagged_lagged 0 marked 3 2 [.ok 5] (told.symm.trans outcomes)

end AimDb.Wasm.Buffer
