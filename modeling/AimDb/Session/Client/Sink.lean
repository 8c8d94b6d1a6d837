import AimDb.Session.Client

/-!
# The sink of a subscription

`deliver` and `end_sub` on channels of any capacity. An update leaves the slots free
that are not its own: the last one is for the terminal error, and the one before it is
for the end of the burst as long as that is to come.
-/

namespace AimDb.Session.Client

open AimDb.Transition

/-- A channel of updates; one without a capacity is never full. -/
structure Sink where
  capacity : Option ℕ
  items : List (Except RpcError SubUpdate)
  receiver : Bool

inductive TrySendError where
  | full
  | closed

def Sink.trySend (sink : Sink) (item : Except RpcError SubUpdate) : Except TrySendError Sink :=
  if !sink.receiver then .error .closed
  else if sink.capacity.any (· ≤ sink.items.length) then .error .full
  else .ok { sink with items := sink.items ++ [item] }

theorem Sink.trySend_room {sink : Sink} {capacity : ℕ} (item : Except RpcError SubUpdate)
    (bounded : sink.capacity = some capacity) (listening : sink.receiver = true)
    (room : sink.items.length < capacity) :
    sink.trySend item = .ok { sink with items := sink.items ++ [item] } := by
  rw [trySend, listening, bounded, if_neg (by decide), if_neg (by simpa using room)]

theorem Sink.trySend_full {sink : Sink} {capacity : ℕ} (item : Except RpcError SubUpdate)
    (bounded : sink.capacity = some capacity) (listening : sink.receiver = true)
    (full : capacity ≤ sink.items.length) : sink.trySend item = .error .full := by
  rw [trySend, listening, bounded, if_neg (by decide), if_pos (by simpa using full)]

/-- The tables of a connection that updates go through, and the channels behind them. -/
structure Sinks where
  channels : ℕ → Sink
  subs : AList fun _ : String => ℕ
  lastSeq : AList fun _ : String => UInt64

structure Delivered where
  sub : String
  seq : UInt64
  update : SubUpdate

namespace Sinks

/-- The cursor of a subscription: `0` before the first delivery. -/
def cursor (s : Sinks) (sub : String) : UInt64 := (s.lastSeq.lookup sub).getD 0

def deliver (s : Sinks) (sub : String) (seq : UInt64) (update : SubUpdate) (mode : Delivery) :
    Sinks × List Delivered :=
  let prev := s.cursor sub
  let skipped := saturatingSub seq (saturatingAdd prev 1)
  match s.subs.lookup sub with
  | none => (s, [])
  | some channel =>
      let sink := s.channels channel
      if sink.capacity.any fun capacity =>
        sink.items.length + mode.reserved ≥ capacity then (s, [])
      else
        let update := { update with skipped, snapshotEnd := mode = .burstEnd }
        match sink.trySend (.ok update) with
        | .ok sink =>
            ({ s with
                channels := Function.update s.channels channel sink
                lastSeq := s.lastSeq.insert sub (max seq prev) }, [⟨sub, seq, update⟩])
        | .error .full => (s, [])
        | .error .closed =>
            ({ s with subs := s.subs.erase sub, lastSeq := s.lastSeq.erase sub }, [])

def endSub (s : Sinks) (sub : String) (err : RpcError) : Sinks :=
  match s.subs.lookup sub with
  | none => s
  | some channel =>
      { channels :=
          match (s.channels channel).trySend (.error err) with
          | .ok sink => Function.update s.channels channel sink
          | .error _ => s.channels
        subs := s.subs.erase sub
        lastSeq := s.lastSeq.erase sub }

/-- The consumer takes the oldest item. -/
def pop (s : Sinks) (channel : ℕ) : Sinks :=
  { s with
    channels := Function.update s.channels channel
      { s.channels channel with items := (s.channels channel).items.tail } }

def unlisten (s : Sinks) (channel : ℕ) : Sinks :=
  { s with
    channels := Function.update s.channels channel { s.channels channel with receiver := false } }

variable {s : Sinks} {sub : String} {seq : UInt64} {update : SubUpdate} {mode : Delivery}
  {channel capacity : ℕ}

theorem deliver_unknown (unknown : s.subs.lookup sub = none) :
    s.deliver sub seq update mode = (s, []) := by
  rw [deliver, unknown]

theorem deliver_tight (found : s.subs.lookup sub = some channel)
    (bounded : (s.channels channel).capacity = some capacity)
    (tight : capacity ≤ (s.channels channel).items.length + mode.reserved) :
    s.deliver sub seq update mode = (s, []) := by
  rw [deliver, found]
  dsimp only
  rw [bounded, Option.any_some, if_pos (decide_eq_true tight)]

def handed (s : Sinks) (sub : String) (seq : UInt64) (update : SubUpdate) (mode : Delivery) :
    SubUpdate :=
  { update with
    skipped := saturatingSub seq (saturatingAdd (s.cursor sub) 1)
    snapshotEnd := mode = .burstEnd }

theorem reserved_pos (mode : Delivery) : 1 ≤ mode.reserved := by cases mode <;> decide

theorem deliver_room (found : s.subs.lookup sub = some channel)
    (bounded : (s.channels channel).capacity = some capacity)
    (room : (s.channels channel).items.length + mode.reserved < capacity)
    (listening : (s.channels channel).receiver = true) :
    s.deliver sub seq update mode =
      ({ s with
          channels := Function.update s.channels channel { s.channels channel with
            items := (s.channels channel).items ++ [.ok (s.handed sub seq update mode)] }
          lastSeq := s.lastSeq.insert sub (max seq (s.cursor sub)) },
        [⟨sub, seq, s.handed sub seq update mode⟩]) := by
  have one := reserved_pos mode
  rw [deliver, found]
  dsimp only
  rw [Sink.trySend_room _ bounded listening (by omega), bounded, Option.any_some,
    if_neg (by simpa using room)]
  rfl

theorem deliver_closed (found : s.subs.lookup sub = some channel)
    (bounded : (s.channels channel).capacity = some capacity)
    (room : (s.channels channel).items.length + mode.reserved < capacity)
    (gone : (s.channels channel).receiver = false) :
    s.deliver sub seq update mode =
      ({ s with subs := s.subs.erase sub, lastSeq := s.lastSeq.erase sub }, []) := by
  have closed (item : Except RpcError SubUpdate) :
      (s.channels channel).trySend item = .error .closed := by
    rw [Sink.trySend, gone]
    rfl
  rw [deliver, found]
  dsimp only
  rw [closed, bounded, Option.any_some, if_neg (by simpa using room)]

end Sinks

def State.sinks (s : State) : Sinks where
  channels stream :=
    ⟨some subscribeChannelCap, (s.streams stream).items, (s.streams stream).receiver⟩
  subs := s.subs
  lastSeq := s.lastSeq

theorem State.sinks_append (s : State) (stream : ℕ) (item : Except RpcError SubUpdate) :
    State.sinks { s with
      streams := Function.update s.streams stream
        { s.streams stream with items := (s.streams stream).items ++ [item] } } =
    { s.sinks with
      channels := Function.update s.sinks.channels stream
        { s.sinks.channels stream with
          items := (s.sinks.channels stream).items ++ [item] } } := by
  rw [sinks, Sinks.mk.injEq]
  refine ⟨?_, rfl, rfl⟩
  funext other
  by_cases same : other = stream
  · subst same
    simp [sinks]
  · simp [sinks, same]

theorem State.sinks_deliver (s : State) (sub : String) (seq : UInt64) (update : SubUpdate)
    (mode : Delivery) :
    (s.deliver sub seq update mode).1.sinks = (s.sinks.deliver sub seq update mode).1 := by
  cases found : s.subs.lookup sub with
  | none =>
      have unknown : s.sinks.subs.lookup sub = none := found
      rw [Sinks.deliver_unknown unknown, State.deliver, found]
  | some stream =>
      have known : s.sinks.subs.lookup sub = some stream := found
      rw [State.deliver, found]
      dsimp only
      by_cases tight : subscribeChannelCap ≤ (s.streams stream).items.length + mode.reserved
      · rw [Sinks.deliver_tight known rfl tight, if_pos tight]
      · have room : (s.sinks.channels stream).items.length + mode.reserved < subscribeChannelCap :=
          Nat.lt_of_not_le tight
        rw [if_neg tight]
        by_cases listening : (s.streams stream).receiver = true
        · have open' : (s.sinks.channels stream).receiver = true := listening
          rw [Sinks.deliver_room known rfl room open', if_pos listening]
          have moved := s.sinks_append stream (.ok (s.sinks.handed sub seq update mode))
          exact congrArg (fun sinks : Sinks => { sinks with
            lastSeq := s.lastSeq.insert sub (max seq (s.sinks.cursor sub)) }) moved
        · have gone : (s.sinks.channels stream).receiver = false := Bool.eq_false_iff.mpr listening
          rw [Sinks.deliver_closed known rfl room gone, if_neg listening]
          rfl

theorem State.sinks_endSub (s : State) (sub : String) (err : RpcError) :
    (s.endSub sub err).sinks = s.sinks.endSub sub err := by
  rw [State.endSub, Sinks.endSub]
  cases found : s.subs.lookup sub with
  | none =>
      have unknown : s.sinks.subs.lookup sub = none := found
      rw [unknown]
  | some stream =>
      have known : s.sinks.subs.lookup sub = some stream := found
      rw [known]
      dsimp only
      by_cases listening : (s.streams stream).receiver = true
      · have open' : (s.sinks.channels stream).receiver = true := listening
        by_cases room : (s.streams stream).items.length < subscribeChannelCap
        · rw [Sink.trySend_room _ rfl open' room, if_pos (by simp [listening, room])]
          have moved := s.sinks_append stream (.error err)
          exact congrArg (fun sinks : Sinks => { sinks with
            subs := s.subs.erase sub, lastSeq := s.lastSeq.erase sub }) moved
        · have full : subscribeChannelCap ≤ (s.sinks.channels stream).items.length :=
            Nat.le_of_not_lt room
          rw [Sink.trySend_full _ rfl open' full, if_neg (by simp [room])]
          rfl
      · have gone : (s.sinks.channels stream).receiver = false := Bool.eq_false_iff.mpr listening
        rw [Sink.trySend, gone, if_neg (by simp [listening])]
        rfl

structure Sinks.Feeds (s : Sinks) (sub : String) (channel capacity : ℕ) : Prop where
  registered : s.subs.lookup sub = some channel
  alone : ∀ other, s.subs.lookup other = some channel → other = sub
  bounded : (s.channels channel).capacity = some capacity
  listening : (s.channels channel).receiver = true

/-- The sinks, and whether the burst of the subscription in question is over. -/
structure Feeding where
  sinks : Sinks
  live : Bool := false

inductive SinkInput where
  | deliver (sub : String) (seq : UInt64) (update : SubUpdate) (mode : Delivery)
  | endSub (sub : String) (err : RpcError)
  | pop (channel : ℕ)
  | unlisten (channel : ℕ)

def sinkStep (sub : String) (s : Feeding) : SinkInput → Option (Feeding × List Delivered)
  | .deliver other seq update mode =>
      let (sinks, log) := s.sinks.deliver other seq update mode
      some (⟨sinks, s.live || (other = sub && mode ≠ .burstBody)⟩, log)
  | .endSub other err => some ({ s with sinks := s.sinks.endSub other err }, [])
  | .pop channel => some ({ s with sinks := s.sinks.pop channel }, [])
  | .unlisten channel => some ({ s with sinks := s.sinks.unlisten channel }, [])

/-- The subscription goes on: its receiver is kept, and nothing ends it. -/
def Ongoing (sub : String) (channel : ℕ) : SinkInput → Prop
  | .deliver _ _ _ _ => True
  | .endSub other _ => other ≠ sub
  | .pop _ => True
  | .unlisten other => other ≠ channel

/-- Besides, its burst comes before its events. -/
def BurstFirst (sub : String) (channel : ℕ) (s : Feeding) (input : SinkInput) : Prop :=
  Ongoing sub channel input ∧ ∀ seq update mode, input = .deliver sub seq update mode →
    s.live = true → mode = .event

namespace Sinks

variable {s : Sinks} {sub : String} {channel capacity : ℕ} {seq : UInt64} {update : SubUpdate}
  {mode : Delivery}

theorem deliver_cases (s : Sinks) (sub : String) (seq : UInt64) (update : SubUpdate)
    (mode : Delivery) :
    s.deliver sub seq update mode = (s, []) ∨
    (∃ channel sink, s.subs.lookup sub = some channel ∧
      s.deliver sub seq update mode =
        ({ s with
            channels := Function.update s.channels channel sink
            lastSeq := s.lastSeq.insert sub (max seq (s.cursor sub)) },
          [⟨sub, seq, s.handed sub seq update mode⟩])) ∨
    s.deliver sub seq update mode =
      ({ s with subs := s.subs.erase sub, lastSeq := s.lastSeq.erase sub }, []) := by
  rw [deliver]
  cases found : s.subs.lookup sub with
  | none => exact .inl rfl
  | some channel =>
      dsimp only
      split
      · exact .inl rfl
      · split
        · exact .inr (.inl ⟨channel, _, rfl, rfl⟩)
        · exact .inl rfl
        · exact .inr (.inr rfl)

namespace Feeds

theorem of_tables (feeds : s.Feeds sub channel capacity) {after : Sinks}
    (registered : after.subs.lookup sub = s.subs.lookup sub)
    (fewer : ∀ other, after.subs.lookup other = some channel →
      s.subs.lookup other = some channel)
    (bounded : (after.channels channel).capacity = (s.channels channel).capacity)
    (listening : (after.channels channel).receiver = (s.channels channel).receiver) :
    after.Feeds sub channel capacity :=
  ⟨registered.trans feeds.registered, fun other found => feeds.alone other (fewer other found),
    bounded.trans feeds.bounded, listening.trans feeds.listening⟩

theorem lookup_erase_fewer {tables : AList fun _ : String => ℕ} {other erased : String}
    (found : (tables.erase erased).lookup other = some channel) :
    tables.lookup other = some channel := by
  by_cases same : other = erased
  · rw [same, AList.lookup_erase] at found
    cases found
  · rwa [AList.lookup_erase_ne same] at found

theorem deliver_other (feeds : s.Feeds sub channel capacity) {other : String}
    (differ : sub ≠ other) :
    (s.deliver other seq update mode).1.Feeds sub channel capacity ∧
      (s.deliver other seq update mode).1.channels channel = s.channels channel ∧
      (s.deliver other seq update mode).1.cursor sub = s.cursor sub ∧
      ∀ delivered ∈ (s.deliver other seq update mode).2, delivered.sub ≠ sub := by
  rcases s.deliver_cases other seq update mode with
    same | ⟨elsewhere, sink, found, sent⟩ | pruned
  · rw [same]
    exact ⟨feeds, rfl, rfl, by simp⟩
  · have apart : channel ≠ elsewhere :=
      fun same => differ (feeds.alone other (same ▸ found)).symm
    rw [sent]
    have untouched : Function.update s.channels elsewhere sink channel = s.channels channel :=
      Function.update_of_ne apart ..
    refine ⟨feeds.of_tables rfl (fun _ found => found) (congrArg Sink.capacity untouched)
      (congrArg Sink.receiver untouched), untouched, ?_, ?_⟩
    · rw [cursor, AList.lookup_insert_ne differ, cursor]
    · intro delivered mem
      rw [List.mem_singleton.mp mem]
      exact Ne.symm differ
  · rw [pruned]
    refine ⟨feeds.of_tables (AList.lookup_erase_ne differ) (fun _ => lookup_erase_fewer) rfl rfl,
      rfl, ?_, by simp⟩
    rw [cursor, AList.lookup_erase_ne differ, cursor]

theorem endSub_other (feeds : s.Feeds sub channel capacity) {other : String}
    (differ : sub ≠ other) (err : RpcError) :
    (s.endSub other err).Feeds sub channel capacity ∧
      (s.endSub other err).channels channel = s.channels channel ∧
      (s.endSub other err).cursor sub = s.cursor sub := by
  rw [endSub]
  cases found : s.subs.lookup other with
  | none => exact ⟨feeds, rfl, rfl⟩
  | some elsewhere =>
      have apart : channel ≠ elsewhere :=
        fun same => differ (feeds.alone other (same ▸ found)).symm
      have erased : ∀ channels : ℕ → Sink, channels channel = s.channels channel →
          Feeds ⟨channels, s.subs.erase other, s.lastSeq.erase other⟩ sub channel capacity ∧
            channels channel = s.channels channel ∧
            cursor ⟨channels, s.subs.erase other, s.lastSeq.erase other⟩ sub =
              s.cursor sub := by
        intro channels untouched
        refine ⟨feeds.of_tables (AList.lookup_erase_ne differ) (fun _ => lookup_erase_fewer)
          (congrArg Sink.capacity untouched) (congrArg Sink.receiver untouched), untouched, ?_⟩
        rw [cursor, AList.lookup_erase_ne differ, cursor]
      dsimp only
      cases (s.channels elsewhere).trySend (.error err) with
      | error refused => exact erased _ rfl
      | ok sink => exact erased _ (Function.update_of_ne apart ..)

theorem deliver_own (feeds : s.Feeds sub channel capacity) :
    (capacity ≤ (s.channels channel).items.length + mode.reserved ∧
      s.deliver sub seq update mode = (s, [])) ∨
    ((s.channels channel).items.length + mode.reserved < capacity ∧
      s.deliver sub seq update mode =
        ({ s with
            channels := Function.update s.channels channel { s.channels channel with
              items := (s.channels channel).items ++ [.ok (s.handed sub seq update mode)] }
            lastSeq := s.lastSeq.insert sub (max seq (s.cursor sub)) },
          [⟨sub, seq, s.handed sub seq update mode⟩])) := by
  by_cases tight : capacity ≤ (s.channels channel).items.length + mode.reserved
  · exact .inl ⟨tight, deliver_tight feeds.registered feeds.bounded tight⟩
  · have room := Nat.lt_of_not_le tight
    exact .inr ⟨room, deliver_room feeds.registered feeds.bounded room feeds.listening⟩

theorem append (feeds : s.Feeds sub channel capacity) (item : Except RpcError SubUpdate)
    (cursors : AList fun _ : String => UInt64) :
    Feeds { s with
      channels := Function.update s.channels channel { s.channels channel with
        items := (s.channels channel).items ++ [item] }
      lastSeq := cursors } sub channel capacity := by
  refine feeds.of_tables rfl (fun _ found => found) ?_ ?_ <;> simp

theorem deliver (feeds : s.Feeds sub channel capacity) :
    (s.deliver sub seq update mode).1.Feeds sub channel capacity := by
  rcases feeds.deliver_own with ⟨-, same⟩ | ⟨-, sent⟩
  · rw [same]
    exact feeds
  · rw [sent]
    exact feeds.append _ _

theorem pop (feeds : s.Feeds sub channel capacity) (other : ℕ) :
    (s.pop other).Feeds sub channel capacity := by
  by_cases same : channel = other
  · subst same
    refine feeds.of_tables rfl (fun _ found => found) ?_ ?_ <;> simp [Sinks.pop]
  · refine feeds.of_tables rfl (fun _ found => found) ?_ ?_ <;> simp [Sinks.pop, same]

theorem unlisten (feeds : s.Feeds sub channel capacity) {other : ℕ} (differ : channel ≠ other) :
    (s.unlisten other).Feeds sub channel capacity := by
  have same : (s.unlisten other).channels channel = s.channels channel :=
    Function.update_of_ne differ ..
  exact feeds.of_tables rfl (fun _ found => found) (congrArg Sink.capacity same)
    (congrArg Sink.receiver same)

end Feeds

end Sinks

/-- The last slot is free, and the one before it until the burst is over. -/
structure KeepsRoom (sub : String) (channel capacity : ℕ) (s : Feeding) : Prop where
  feeds : s.sinks.Feeds sub channel capacity
  terminal : (s.sinks.channels channel).items.length < capacity
  burst : s.live = false → (s.sinks.channels channel).items.length + 1 < capacity

namespace KeepsRoom

variable {sub : String} {channel capacity : ℕ} {s : Feeding}

theorem of_same (keeps : KeepsRoom sub channel capacity s) {sinks : Sinks} {live : Bool}
    (feeds : sinks.Feeds sub channel capacity) (same : sinks.channels channel =
      s.sinks.channels channel) (later : s.live = true → live = true) :
    KeepsRoom sub channel capacity ⟨sinks, live⟩ := by
  refine ⟨feeds, by rw [same]; exact keeps.terminal, fun bursting => ?_⟩
  have before : s.live = false := by
    cases was : s.live with
    | false => rfl
    | true => exact absurd (later was) (by simp [show live = false from bursting])
  rw [same]
  exact keeps.burst before

theorem pop (keeps : KeepsRoom sub channel capacity s) (other : ℕ) :
    KeepsRoom sub channel capacity { s with sinks := s.sinks.pop other } := by
  have shorter : ((s.sinks.pop other).channels channel).items.length ≤
      (s.sinks.channels channel).items.length := by
    by_cases same : channel = other
    · subst same
      simp [Sinks.pop]
    · simp [Sinks.pop, same]
  exact ⟨keeps.feeds.pop other, Nat.lt_of_le_of_lt shorter keeps.terminal, fun bursting =>
    Nat.lt_of_le_of_lt (Nat.succ_le_succ shorter) (keeps.burst bursting)⟩

theorem deliver (keeps : KeepsRoom sub channel capacity s) (seq : UInt64) (update : SubUpdate)
    {mode : Delivery} (orderly : s.live = true → mode = .event) :
    KeepsRoom sub channel capacity ⟨(s.sinks.deliver sub seq update mode).1,
      s.live || (sub = sub && mode ≠ .burstBody)⟩ := by
  rcases keeps.feeds.deliver_own with ⟨-, same⟩ | ⟨room, sent⟩
  · rw [same]
    exact keeps.of_same keeps.feeds rfl fun live => by rw [live, Bool.true_or]
  · rw [sent]
    have grown : (Function.update s.sinks.channels channel { s.sinks.channels channel with
        items := (s.sinks.channels channel).items ++
          [.ok (s.sinks.handed sub seq update mode)] } channel).items.length =
        (s.sinks.channels channel).items.length + 1 := by
      rw [Function.update_self, List.length_append]
      rfl
    have one := Sinks.reserved_pos mode
    refine ⟨keeps.feeds.append _ _, ?_, fun bursting => ?_⟩
    · rw [grown]
      omega
    · -- a burst that goes on is a snapshot of its body, which leaves two slots
      rw [grown]
      cases mode with
      | burstBody => exact room
      | event => simp at bursting
      | burstEnd => simp at bursting

theorem step (keeps : KeepsRoom sub channel capacity s) {input : SinkInput} {after : Feeding}
    {log : List Delivered} (allowed : BurstFirst sub channel s input)
    (stepped : sinkStep sub s input = some (after, log)) :
    KeepsRoom sub channel capacity after := by
  obtain ⟨ongoing, orderly⟩ := allowed
  cases input with
  | deliver other seq update mode =>
      obtain ⟨rfl, -⟩ := Prod.mk.inj (Option.some.inj stepped)
      by_cases own : other = sub
      · subst own
        exact keeps.deliver seq update fun live => orderly seq update mode rfl live
      · obtain ⟨feeds, same, -⟩ := keeps.feeds.deliver_other (Ne.symm own)
        exact keeps.of_same feeds same fun live => by rw [live, Bool.true_or]
  | endSub other err =>
      obtain ⟨rfl, -⟩ := Prod.mk.inj (Option.some.inj stepped)
      obtain ⟨feeds, same, -⟩ := keeps.feeds.endSub_other (Ne.symm ongoing) err
      exact keeps.of_same feeds same id
  | pop other =>
      obtain ⟨rfl, -⟩ := Prod.mk.inj (Option.some.inj stepped)
      exact keeps.pop other
  | unlisten other =>
      obtain ⟨rfl, -⟩ := Prod.mk.inj (Option.some.inj stepped)
      have same : (s.sinks.unlisten other).channels channel = s.sinks.channels channel :=
        Function.update_of_ne (Ne.symm ongoing) ..
      exact keeps.of_same (keeps.feeds.unlisten (Ne.symm ongoing)) same id

end KeepsRoom

/-- The burst's end and a terminal error always find their slot. -/
structure Reserves (sub : String) (channel : ℕ) (s : Feeding) : Prop where
  burstEnd : s.live = false → ∀ seq update, ∃ skipped,
    ((s.sinks.deliver sub seq update .burstEnd).1.channels channel).items =
      (s.sinks.channels channel).items ++ [.ok { update with skipped, snapshotEnd := true }]
  terminal : ∀ err, ((s.sinks.endSub sub err).channels channel).items =
    (s.sinks.channels channel).items ++ [.error err]

theorem KeepsRoom.reserves {sub : String} {channel capacity : ℕ} {s : Feeding}
    (keeps : KeepsRoom sub channel capacity s) : Reserves sub channel s := by
  constructor
  · intro bursting seq update
    have room : (s.sinks.channels channel).items.length + Delivery.burstEnd.reserved < capacity :=
      keeps.burst bursting
    rw [Sinks.deliver_room keeps.feeds.registered keeps.feeds.bounded room keeps.feeds.listening]
    refine ⟨saturatingSub seq (saturatingAdd (s.sinks.cursor sub) 1), ?_⟩
    change (Function.update s.sinks.channels channel _ channel).items = _
    rw [Function.update_self]
    rfl
  · intro err
    rw [Sinks.endSub, keeps.feeds.registered]
    dsimp only
    rw [Sink.trySend_room _ keeps.feeds.bounded keeps.feeds.listening keeps.terminal]
    change (Function.update s.sinks.channels channel _ channel).items = _
    rw [Function.update_self]

/-- A count over deliveries. -/
structure Tally where
  largest : UInt64 := 0
  advances : ℕ := 0
  skipped : ℕ := 0

/-- Only a number larger than all before advances the cursor. -/
def Tally.count (tally : Tally) (delivered : Delivered) : Tally where
  largest := max delivered.seq tally.largest
  advances := tally.advances + if tally.largest < delivered.seq then 1 else 0
  skipped := tally.skipped + delivered.update.skipped.toNat

def tally (sub : String) (log : List Delivered) : Tally :=
  (log.filter (·.sub = sub)).foldl Tally.count {}

/-- The gap before a number, seen from the cursor, and the step to it. -/
theorem gap_add_advance (seq prev : UInt64) :
    (saturatingSub seq (saturatingAdd prev 1)).toNat + (if prev < seq then 1 else 0) =
      (max seq prev).toNat - prev.toNat ∧ prev.toNat ≤ (max seq prev).toNat := by
  have bound := seq.toNat_lt_size
  have one : (1 : UInt64).toNat = 1 := rfl
  have size : UInt64.size = 18446744073709551616 := rfl
  change (saturatingSub seq (saturatingAdd prev 1)).toNat + (if prev < seq then 1 else 0) =
    (if seq ≤ prev then prev else seq).toNat - prev.toNat ∧
      prev.toNat ≤ (if seq ≤ prev then prev else seq).toNat
  by_cases above : prev < seq
  · have larger : prev.toNat < seq.toNat := UInt64.lt_iff_toNat_lt.mp above
    have next : (prev + 1).toNat = prev.toNat + 1 := by
      rw [UInt64.toNat_add, one]
      exact Nat.mod_eq_of_lt (by omega)
    have reached : prev + 1 ≤ seq := UInt64.le_iff_toNat_le.mpr (by omega)
    have fits : prev.toNat + (1 : UInt64).toNat < UInt64.size := by omega
    rw [saturatingAdd, if_pos fits, saturatingSub, if_pos reached, if_pos above,
      if_neg (UInt64.not_le.mpr above), UInt64.toNat_sub_of_le _ _ reached, next]
    omega
  · have below : seq ≤ prev := UInt64.not_lt.mp above
    have smaller : seq.toNat ≤ prev.toNat := UInt64.le_iff_toNat_le.mp below
    have none : saturatingSub seq (saturatingAdd prev 1) = 0 := by
      rw [saturatingAdd]
      split
      · next fits =>
        have next : (prev + 1).toNat = prev.toNat + 1 := by
          rw [UInt64.toNat_add, one]
          exact Nat.mod_eq_of_lt fits
        have beyond : ¬ prev + 1 ≤ seq := fun reached => by
          have := UInt64.le_iff_toNat_le.mp reached
          omega
        rw [saturatingSub, if_neg beyond]
      · rw [saturatingSub]
        split
        · next reached =>
          have top : (UInt64.ofNat (UInt64.size - 1)).toNat = UInt64.size - 1 := rfl
          have least := UInt64.le_iff_toNat_le.mp reached
          rw [top] at least
          rw [← UInt64.toNat_inj, UInt64.toNat_sub_of_le _ _ reached, top]
          change seq.toNat - (UInt64.size - 1) = 0
          omega
        · rfl
    rw [none, if_neg above, if_pos below]
    exact ⟨(Nat.sub_self _).symm, Nat.le_refl _⟩

structure Accounts (sub : String) (s : Sinks) (log : List Delivered) : Prop where
  largest : s.cursor sub = (tally sub log).largest
  total : (tally sub log).skipped + (tally sub log).advances = (s.cursor sub).toNat

namespace Accounts

variable {sub : String} {channel capacity : ℕ} {s after : Sinks} {log emitted : List Delivered}

theorem tally_append_of_other (others : ∀ delivered ∈ emitted, delivered.sub ≠ sub) :
    tally sub (log ++ emitted) = tally sub log := by
  have none : emitted.filter (·.sub = sub) = [] := by
    rw [List.filter_eq_nil_iff]
    exact fun delivered mem => by simpa using others delivered mem
  rw [tally, List.filter_append, none, List.append_nil, tally]

theorem of_other (accounts : Accounts sub s log) (same : after.cursor sub = s.cursor sub)
    (others : ∀ delivered ∈ emitted, delivered.sub ≠ sub) :
    Accounts sub after (log ++ emitted) ∧ s.cursor sub ≤ after.cursor sub := by
  have told : tally sub (log ++ emitted) = tally sub log := tally_append_of_other others
  refine ⟨⟨by rw [same, told]; exact accounts.largest,
    by rw [same, told]; exact accounts.total⟩, ?_⟩
  rw [same]
  exact UInt64.le_refl _

theorem deliver (accounts : Accounts sub s log) (feeds : s.Feeds sub channel capacity)
    (seq : UInt64) (update : SubUpdate) (mode : Delivery) :
    Accounts sub (s.deliver sub seq update mode).1 (log ++ (s.deliver sub seq update mode).2) ∧
      s.cursor sub ≤ (s.deliver sub seq update mode).1.cursor sub := by
  rcases feeds.deliver_own with ⟨-, same⟩ | ⟨-, sent⟩
  · rw [same]
    exact accounts.of_other rfl (by simp)
  · rw [sent]
    have moved (channels : ℕ → Sink) : Sinks.cursor { s with
        channels, lastSeq := s.lastSeq.insert sub (max seq (s.cursor sub)) } sub =
        max seq (s.cursor sub) := by
      rw [Sinks.cursor, AList.lookup_insert, Option.getD_some]
    have told : tally sub (log ++ [⟨sub, seq, s.handed sub seq update mode⟩]) =
        (tally sub log).count ⟨sub, seq, s.handed sub seq update mode⟩ := by
      rw [tally, List.filter_append, List.foldl_append]
      simp [tally]
    obtain ⟨gap, forward⟩ := gap_add_advance seq (s.cursor sub)
    refine ⟨⟨?_, ?_⟩, ?_⟩
    · rw [moved, told, Tally.count, ← accounts.largest]
    · have total := accounts.total
      rw [moved, told, Tally.count, ← accounts.largest]
      change (tally sub log).skipped + (saturatingSub seq (saturatingAdd (s.cursor sub) 1)).toNat +
        ((tally sub log).advances + if s.cursor sub < seq then 1 else 0) = _
      omega
    · rw [moved]
      exact UInt64.le_iff_toNat_le.mpr forward

theorem step (accounts : Accounts sub s log) (feeds : s.Feeds sub channel capacity) {live : Bool}
    {input : SinkInput} {next : Feeding} (ongoing : Ongoing sub channel input)
    (stepped : sinkStep sub ⟨s, live⟩ input = some (next, emitted)) :
    Accounts sub next.sinks (log ++ emitted) ∧ s.cursor sub ≤ next.sinks.cursor sub ∧
      next.sinks.Feeds sub channel capacity := by
  have quiet : ∀ delivered ∈ ([] : List Delivered), delivered.sub ≠ sub := by simp
  cases input with
  | deliver other seq update mode =>
      obtain ⟨rfl, rfl⟩ := Prod.mk.inj (Option.some.inj stepped)
      by_cases own : other = sub
      · subst own
        obtain ⟨kept, forward⟩ := accounts.deliver feeds seq update mode
        exact ⟨kept, forward, feeds.deliver⟩
      · obtain ⟨still, -, same, others⟩ := feeds.deliver_other (Ne.symm own)
        obtain ⟨kept, forward⟩ := accounts.of_other same others
        exact ⟨kept, forward, still⟩
  | endSub other err =>
      obtain ⟨rfl, rfl⟩ := Prod.mk.inj (Option.some.inj stepped)
      obtain ⟨still, -, same⟩ := feeds.endSub_other (Ne.symm ongoing) err
      obtain ⟨kept, forward⟩ := accounts.of_other same quiet
      exact ⟨kept, forward, still⟩
  | pop other =>
      obtain ⟨rfl, rfl⟩ := Prod.mk.inj (Option.some.inj stepped)
      obtain ⟨kept, forward⟩ := accounts.of_other (rfl : (s.pop other).cursor sub = _) quiet
      exact ⟨kept, forward, feeds.pop other⟩
  | unlisten other =>
      obtain ⟨rfl, rfl⟩ := Prod.mk.inj (Option.some.inj stepped)
      obtain ⟨kept, forward⟩ :=
        accounts.of_other (rfl : (s.unlisten other).cursor sub = _) quiet
      exact ⟨kept, forward, feeds.unlisten (Ne.symm ongoing)⟩

end Accounts

structure Opened (sub : String) (channel capacity : ℕ) (s : Sinks) : Prop where
  feeds : s.Feeds sub channel capacity
  empty : (s.channels channel).items = []
  unseen : s.lastSeq.lookup sub = none

/-- In every run of a subscription that goes on, the end of its burst and a terminal error
reach the sink as long as the burst comes first, and its cursor only advances, is the
largest number delivered and accounts for every number up to it. -/
theorem sinkContract {sub : String} {channel capacity : ℕ} {start : Sinks}
    (opened : Opened sub channel capacity start) (size : 3 ≤ capacity) :
    (∀ s log, Reaches (sinkStep sub) (BurstFirst sub channel) ⟨start, false⟩ s log →
      Reserves sub channel s) ∧
    ∀ s log, Reaches (sinkStep sub) (fun _ => Ongoing sub channel) ⟨start, false⟩ s log →
      Accounts sub s.sinks log ∧ ∀ input next emitted, Ongoing sub channel input →
        sinkStep sub s input = some (next, emitted) →
        s.sinks.cursor sub ≤ next.sinks.cursor sub := by
  constructor
  · intro s log reached
    have keeps : KeepsRoom sub channel capacity s := by
      refine reached.invariant (fun s _ => KeepsRoom sub channel capacity s) ?_ ?_
      · have none : (start.channels channel).items.length = 0 := by rw [opened.empty]; rfl
        exact ⟨opened.feeds, by dsimp only; omega, fun _ => by dsimp only; omega⟩
      · exact fun _ allowed stepped keeps => keeps.step allowed stepped
    exact keeps.reserves
  · intro s log reached
    have kept : Accounts sub s.sinks log ∧ s.sinks.Feeds sub channel capacity := by
      refine reached.invariant (fun s log => Accounts sub s.sinks log ∧
        s.sinks.Feeds sub channel capacity) ?_ ?_
      · refine ⟨⟨?_, ?_⟩, opened.feeds⟩ <;> rw [Sinks.cursor, opened.unseen] <;> rfl
      · intro s log input next emitted _ ongoing stepped kept
        obtain ⟨accounts, -, feeds⟩ := kept.1.step kept.2 ongoing stepped
        exact ⟨accounts, feeds⟩
    exact ⟨kept.1, fun input next emitted ongoing stepped =>
      (kept.1.step kept.2 ongoing stepped).2.1⟩

def threeSlots : Sinks where
  channels _ := ⟨some 3, [], true⟩
  subs := AList.singleton "1" 0
  lastSeq := ∅

theorem opened_threeSlots : Opened "1" 0 3 threeSlots := by
  refine ⟨⟨by decide, fun other found => ?_, rfl, rfl⟩, rfl, rfl⟩
  have mem : other ∈ threeSlots.subs := AList.lookup_isSome.mp (by rw [found]; rfl)
  exact List.mem_singleton.mp (AList.mem_keys.mp mem)

theorem sinkContract_threeSlots :
    ∃ s log, Reaches (sinkStep "1") (BurstFirst "1" 0) ⟨threeSlots, false⟩ s log ∧
      log.length = 1 ∧ Reserves "1" 0 s ∧ Accounts "1" s.sinks log := by
  have allowed : BurstFirst "1" 0 ⟨threeSlots, false⟩ (.deliver "1" 7 (.new [] 0) .burstBody) :=
    ⟨trivial, fun _ _ _ _ live => (by cases live)⟩
  have initial : Reaches (sinkStep "1") (BurstFirst "1" 0) ⟨threeSlots, false⟩ _ [] := .start
  have reached := initial.next allowed rfl
  have contract := sinkContract opened_threeSlots (Nat.le_refl 3)
  exact ⟨_, _, reached, by decide, contract.1 _ _ reached,
    (contract.2 _ _ (reached.mono fun _ _ allowed => allowed.1)).1⟩

end AimDb.Session.Client
