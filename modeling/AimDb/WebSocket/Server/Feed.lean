import AimDb.WebSocket.Server.Isolation
import AimDb.WebSocket.ClientManager.Hearing
import AimDb.Feed.LateJoin

/-!
# A subscription as a late subscriber

What the broadcast loop, the bus and a session hold for one subscription, as the state of
a subscriber that joins a feed late.
-/

namespace AimDb.WebSocket

open Session (Payload Stamp Outbound)
open Session.TopicMatch Transition
open Feed (Subscriber Follows Latest ofKey)

def Message.key (message : Message) : ℕ × String := (message.recordIndex, message.topic)

namespace Server

namespace Record

def begun : Record → Option Message
  | .broadcast message => some message
  | _ => none

def isRead (client stream : ℕ) : Record → Bool
  | .snapshotsRead asked on => asked = client ∧ on = stream
  | _ => false

def item (client stream : ℕ) : Record → Option Message
  | .value asked on record frame =>
      if asked = client ∧ on = stream then
        (carried frame).map fun value => ⟨value.1, record, value.2.1, value.2.2⟩
      else none
  | _ => none

def event (client stream : ℕ) : Record → Option Message
  | .value asked on record (.event _ _ (some topic) ts data) =>
      if asked = client ∧ on = stream then some ⟨topic, record, data, ts⟩ else none
  | _ => none

def stream : Record → Option ℕ
  | .value _ stream _ _ => some stream
  | .snapshotsRead _ stream => some stream
  | _ => none

end Record

/-- The messages broadcast since a session read the cache. -/
def since (client stream : ℕ) (log : List Record) : List Message :=
  (log.dropWhile fun record => !record.isRead client stream).filterMap Record.begun

structure Silent (client stream : ℕ) (record : Record) : Prop where
  begun : record.begun = none
  unread : record.isRead client stream = false
  item : record.item client stream = none
  event : record.event client stream = none

variable {client stream : ℕ} {log : List Record} {record : Record}

theorem since_of_unread (unread : log.any (Record.isRead client stream) = false) :
    since client stream log = [] := by
  have all : log.dropWhile (fun record => !record.isRead client stream) = [] := by
    rw [List.dropWhile_eq_nil_iff]
    intro record mem
    simpa using List.any_eq_false.mp unread record mem
  rw [since, all, List.filterMap_nil]

theorem since_append (record : Record)
    (notRead : record.isRead client stream = true → record.begun = none) :
    since client stream (log ++ [record]) =
      if log.any (Record.isRead client stream) then since client stream log ++ record.begun.toList
      else [] := by
  rw [since, List.dropWhile_append]
  by_cases read : log.any (Record.isRead client stream) = true
  · have some : ¬ (log.dropWhile fun record => !record.isRead client stream).isEmpty = true := by
      rw [List.isEmpty_iff, List.dropWhile_eq_nil_iff]
      intro none
      obtain ⟨marker, mem, isMarker⟩ := List.any_eq_true.mp read
      simpa [isMarker] using none marker mem
    rw [if_neg some, if_pos read, List.filterMap_append, since]
    cases begun : record.begun <;> simp [begun]
  · have all : (log.dropWhile fun record => !record.isRead client stream).isEmpty = true := by
      rw [List.isEmpty_iff, List.dropWhile_eq_nil_iff]
      intro record mem
      simpa using List.any_eq_false.mp (by simpa using read) record mem
    rw [if_pos all, if_neg read]
    cases isRead : record.isRead client stream with
    | true => simp [isRead, notRead isRead]
    | false => simp [isRead]

def ahead (s : Server) : Option Message :=
  match s.loop with
  | .taken message => some message
  | .waiting | .broadcasting _ => none

def current (s : Server) : Option Broadcast :=
  match s.loop with
  | .broadcasting b => s.bus.broadcasts b
  | .waiting | .taken _ => none

def funnelled (session : WsSession) (stream : ℕ) : List Message :=
  (session.funnel.filter fun event => event.stream = stream).map SubEvent.message

def leftOf (session : WsSession) (stream : ℕ) : List Message :=
  match session.accepting with
  | some accepting =>
      if accepting.stream = stream then accepting.left.map Snapshot.message else []
  | none => []

def pumped (session : WsSession) (stream : ℕ) : Bool := stream ∈ session.pumps.map Pump.stream

def subscriber (s : Server) (log : List Record) (client : ℕ) (session : WsSession)
    (stream : ℕ) : Subscriber Message where
  begun := log.filterMap Record.begun
  ahead := s.ahead
  offer := s.current.bind (·.offered stream)
  early := s.current.any fun call => call.limit ≤ stream
  transit := funnelled session stream ++ s.bus.queued stream ++
    (s.current.map (·.held stream)).getD []
  read := log.any (Record.isRead client stream)
  left := leftOf session stream
  live := pumped session stream
  sent := log.filterMap (Record.item client stream)
  events := log.filterMap (Record.event client stream)
  since := since client stream log

def accepts (session : WsSession) (topic : String) (key : ℕ × String) : Bool :=
  topicMatches topic key.2 && session.recordPerms.isAllowed key.1

def subscriptions (session : WsSession) : List (ℕ × String) :=
  session.accepting.toList.map (fun accepting => (accepting.stream, accepting.topic)) ++
    session.pumps.map fun pump => (pump.stream, pump.topic)

def Followed (config : Config) (s : Server) (log : List Record) (client : ℕ) (session : WsSession)
    (stream : ℕ) (topic : String) : Prop :=
  ∃ missed heard shown, Follows Message.key (accepts session topic)
    (fun message => config.asRaw message.payload) (subscriber s log client session stream)
    missed heard shown

variable {config : Config} {s after : Server} {input : Input} {session : WsSession} {topic : String}
  {emitted : List Record}

theorem unheard_of (other : record.stream = some stream → record.client ≠ some client) :
    record.isRead client stream = false ∧ record.item client stream = none ∧
      record.event client stream = none := by
  cases record with
  | snapshotsRead asked on =>
      have different : ¬ (asked = client ∧ on = stream) := fun same =>
        other (congrArg some same.2) (congrArg some same.1)
      exact ⟨by simpa [Record.isRead] using different, rfl, rfl⟩
  | value asked on index frame =>
      have different : ¬ (asked = client ∧ on = stream) := fun same =>
        other (congrArg some same.2) (congrArg some same.1)
      refine ⟨rfl, by simp [Record.item, different], ?_⟩
      cases frame with
      | event sub seq topic ts data => cases topic <;> simp [Record.event, different]
      | _ => rfl
  | _ => exact ⟨rfl, rfl, rfl⟩

/-- Only what is sent on a stream, a read for it and a broadcast concern a subscription. -/
theorem silent_of (begun : record.begun = none)
    (other : record.stream = some stream → record.client ≠ some client) :
    Silent client stream record :=
  ⟨begun, (unheard_of other).1, (unheard_of other).2.1, (unheard_of other).2.2⟩

theorem subscriber_silent (silent : Silent client stream record) :
    subscriber s (log ++ [record]) client session stream =
      subscriber s log client session stream := by
  have sinceSame : since client stream (log ++ [record]) = since client stream log := by
    rw [since_append record fun _ => silent.begun, silent.begun, Option.toList_none,
      List.append_nil]
    split
    · rfl
    · rename_i unread
      exact (since_of_unread (by simpa using unread)).symm
  simp [subscriber, silent.begun, silent.item, silent.event, silent.unread, sinceSame]

theorem subscriber_silents (silent : ∀ record ∈ emitted, Silent client stream record) :
    subscriber s (log ++ emitted) client session stream =
      subscriber s log client session stream := by
  induction emitted generalizing log with
  | nil => rw [List.append_nil]
  | cons record emitted inductionHypothesis =>
      rw [← List.singleton_append, ← List.append_assoc,
        inductionHypothesis fun other mem => silent other (List.mem_cons_of_mem _ mem),
        subscriber_silent (silent record List.mem_cons_self)]

theorem subscriber_eq (sameAhead : after.ahead = s.ahead) (sameCurrent : after.current = s.current)
    (queued : after.bus.queued stream = s.bus.queued stream) :
    subscriber after log client session stream = subscriber s log client session stream := by
  rw [subscriber, subscriber, sameCurrent, sameAhead, queued]

theorem subscriber_congr (loop : after.loop = s.loop)
    (broadcasts : after.bus.broadcasts = s.bus.broadcasts)
    (streams : after.bus.streams stream = s.bus.streams stream) :
    subscriber after log client session stream = subscriber s log client session stream := by
  refine subscriber_eq ?_ ?_ ?_
  · rw [ahead, ahead, loop]
  · rw [current, current, loop, broadcasts]
  · rw [ClientManager.queued, ClientManager.queued, streams]

structure Books (config : Config) (s : Server) (log : List Record) : Prop where
  only : ∀ b call, s.bus.broadcasts b = some call → s.loop = .broadcasting b
  under : ∀ b, s.loop = .broadcasting b → ∃ call rest, s.bus.broadcasts b = some call ∧
    log.filterMap Record.begun = rest ++ [call.message]
  nodup : (s.cache.map Snapshot.key).Nodup
  cached : config.lateJoin = true → ∀ k item,
    (ofKey Message.key k (log.filterMap Record.begun ++ s.ahead.toList)).getLast? = some item →
    ∃ snap ∈ s.cache, snap.message = item

theorem Books.frame (books : Books config s log)
    (broadcasts : after.bus.broadcasts = s.bus.broadcasts) (loop : after.loop = s.loop)
    (cache : after.cache = s.cache) (quiet : emitted.filterMap Record.begun = []) :
    Books config after (log ++ emitted) where
  only := by
    rw [broadcasts, loop]
    exact books.only
  under := by
    rw [broadcasts, loop, List.filterMap_append, quiet, List.append_nil]
    exact books.under
  nodup := cache ▸ books.nodup
  cached := by
    rw [List.filterMap_append, quiet, List.append_nil, cache, ahead, loop]
    exact books.cached

theorem books_new (config : Config) : Books config (new config) [] where
  only := by simp [new, ClientManager.new]
  under := by simp [new]
  nodup := by simp [new]
  cached := by simp [new, ahead, ofKey]

theorem Books.take (books : Books config s log) (waits : s.loop = .waiting) (message : Message) :
    Books config { s with
      cache := if config.lateJoin then
        s.cache.insert ⟨message.recordIndex, message.topic, message.payload, message.ts⟩
        else s.cache
      loop := .taken message } (log ++ [.taken message]) where
  only := by
    intro b call found
    have busy := books.only b call found
    rw [waits] at busy
    cases busy
  under := fun b taken => by cases taken
  nodup := by
    dsimp only
    split
    · rw [SnapshotCache.insert, List.map_append, List.map_singleton]
      refine List.Nodup.append (books.nodup.sublist (List.filter_sublist.map _)) (by simp) ?_
      intro key isOld isNew
      obtain ⟨snap, mem, rfl⟩ := List.mem_map.mp isOld
      exact of_decide_eq_true (List.mem_filter.mp mem).2 (List.mem_singleton.mp isNew)
    · exact books.nodup
  cached := by
    intro lateJoin k item isLast
    dsimp only
    rw [if_pos lateJoin]
    have quiet : (log ++ [Record.taken message]).filterMap Record.begun =
        log.filterMap Record.begun := by
      simp [Record.begun]
    rw [quiet, ahead, Option.toList_some, Feed.ofKey_append] at isLast
    by_cases same : message.key = k
    · subst same
      rw [Feed.ofKey_same, List.getLast?_concat] at isLast
      obtain rfl := Option.some.inj isLast
      exact ⟨_, List.mem_append_right _ (List.mem_singleton.mpr rfl), rfl⟩
    · rw [Feed.ofKey_other same, List.append_nil] at isLast
      have before := books.cached lateJoin k item
      rw [ahead, waits, Option.toList_none, List.append_nil] at before
      obtain ⟨snap, mem, isItem⟩ := before isLast
      have isKey : item.key = k :=
        of_decide_eq_true (List.mem_filter.mp (List.mem_of_getLast? isLast)).2
      refine ⟨snap, List.mem_append_left _ (List.mem_filter.mpr ⟨mem, ?_⟩), isItem⟩
      refine decide_eq_true fun sameKey => same ?_
      rw [← isKey, ← isItem]
      exact sameKey.symm

theorem Books.begin (books : Books config s log) {message : Message}
    (holds : s.loop = .taken message) :
    Books config { s with bus := (s.bus.begin message).1, loop := .broadcasting s.bus.begun }
      (log ++ [.broadcast message]) where
  only := by
    intro b call found
    by_cases new : b = s.bus.begun
    · rw [new]
    · have busy := books.only b call (by simpa [ClientManager.begin, new] using found)
      rw [holds] at busy
      cases busy
  under := by
    intro b same
    obtain rfl := Loop.broadcasting.inj same
    exact ⟨{ message, limit := s.bus.nextSub }, log.filterMap Record.begun,
      by simp [ClientManager.begin], by simp [Record.begun]⟩
  nodup := books.nodup
  cached := by
    intro lateJoin k item isLast
    refine books.cached lateJoin k item ?_
    rw [ahead, holds]
    simpa [ahead, Record.begun] using isLast

/-- Steps inside a broadcast, and those that drop a stream for good, yield nothing, put no
stream out of use and end no broadcast but a finished one. -/
structure InnerStep (bus next : ClientManager) (input : ClientManager.Input)
    (emitted : List ClientManager.Record) : Prop where
  nextSub : next.nextSub = bus.nextSub
  unpolled : ∀ sub item, emitted ≠ [.yielded sub item]
  dropping : ∀ sub, (next.streams sub).map SubStream.dropping =
    (bus.streams sub).map SubStream.dropping
  goesOn : ∀ b, input ≠ .finish b → (bus.broadcasts b).isSome → (next.broadcasts b).isSome
  filled : ∀ b call sub amount, next.broadcasts b = some call →
    call.hand = .restoring sub amount →
    (∃ before, bus.broadcasts b = some before ∧ before.hand = .restoring sub amount) ∨
    input = .trySend b ∧ ∃ before stream, bus.broadcasts b = some before ∧
      before.hand.entry = some sub ∧ bus.streams sub = some stream ∧
      bus.subCapacity ≤ stream.queue.length

theorem dropping_setStream {bus : ClientManager} {sub other : ℕ} {before next : SubStream}
    (opened : bus.streams sub = some before) (same : next.dropping = before.dropping) :
    ((bus.setStream sub next).streams other).map SubStream.dropping =
      (bus.streams other).map SubStream.dropping := by
  by_cases isSub : other = sub
  · subst isSub
    simp [opened, same]
  · simp [isSub]

theorem isSome_setBroadcast {bus : ClientManager} {b other : ℕ} (call : Broadcast)
    (live : (bus.broadcasts other).isSome) :
    ((bus.setBroadcast b (some call)).broadcasts other).isSome := by
  by_cases same : other = b
  · simp [same]
  · simpa [same] using live

theorem filled_setBroadcast {bus : ClientManager} {b other sub amount : ℕ} {set call : Broadcast}
    (unfilled : set.hand = .restoring sub amount →
      ∃ before, bus.broadcasts b = some before ∧ before.hand = .restoring sub amount)
    (found : (bus.setBroadcast b (some set)).broadcasts other = some call)
    (restores : call.hand = .restoring sub amount) :
    ∃ before, bus.broadcasts other = some before ∧ before.hand = .restoring sub amount := by
  by_cases same : other = b
  · subst same
    obtain rfl : set = call := by simpa using found
    exact unfilled restores
  · exact ⟨call, by simpa [same] using found, restores⟩

theorem inner_spec {bus next : ClientManager} {input : ClientManager.Input}
    {emitted : List ClientManager.Record} (inner : Inner input = true)
    (stepped : bus.step input = some (next, emitted)) : InnerStep bus next input emitted := by
  cases input with
  | subscribe _ _ => cases inner
  | broadcast _ => cases inner
  | poll _ => cases inner
  | drop _ => cases inner
  | visit b sub | restore b | endIteration b | prune b =>
      simp only [ClientManager.step, ClientManager.visit, ClientManager.restore,
        ClientManager.endIteration, ClientManager.prune] at stepped
      repeat' split at stepped
      all_goals cases stepped
      all_goals
        refine ⟨rfl, by simp, fun _ => rfl, fun _ _ live => isSome_setBroadcast _ live,
          fun other call sub amount found restores =>
            .inl (filled_setBroadcast ?_ found restores)⟩
      all_goals
        intro same
        first
        | cases same
        | refine ⟨_, by assumption, ?_⟩
          exact same
  | trySend b =>
      simp only [ClientManager.step, ClientManager.trySend] at stepped
      repeat' split at stepped
      all_goals cases stepped
      · refine ⟨rfl, by simp, fun _ => rfl, fun _ _ live => isSome_setBroadcast _ live,
          fun other call sub amount found restores =>
            .inl (filled_setBroadcast ?_ found restores)⟩
        exact fun same => by cases same
      · rename_i before isBefore _ reached carried carries _ stream isStream _ full
        refine ⟨rfl, by simp, fun _ => rfl, fun _ _ live => isSome_setBroadcast _ live,
          fun other call sub amount found restores => ?_⟩
        by_cases same : other = b
        · subst same
          obtain rfl : { before with hand := .restoring reached (carried + 1) } = call := by
            simpa using found
          obtain ⟨rfl, _⟩ := Hand.restoring.inj restores
          exact .inr ⟨rfl, before, stream, isBefore, by rw [carries]; rfl, isStream, full⟩
        · exact .inl ⟨call, by simpa [same] using found, restores⟩
      · rename_i before isBefore reached carried carries stream isStream _ full
        refine ⟨rfl, by simp, fun _ => dropping_setStream isStream rfl,
          fun _ _ live => isSome_setBroadcast _ live,
          fun other call sub amount found restores =>
            .inl (filled_setBroadcast ?_ found restores)⟩
        exact fun same => by cases same
  | finish b =>
      simp only [ClientManager.step, ClientManager.finish] at stepped
      repeat' split at stepped
      all_goals cases stepped
      refine ⟨rfl, by simp, fun _ => rfl, fun other goesOn live => ?_,
        fun other call sub amount found restores => ?_⟩
      · have different : other ≠ b := fun same => goesOn (same ▸ rfl)
        simpa [different] using live
      · by_cases same : other = b
        · simp [same] at found
        · exact .inl ⟨call, by simpa [same] using found, restores⟩
  | dropReceiver sub =>
      simp only [ClientManager.step, ClientManager.dropReceiver] at stepped
      repeat' split at stepped
      all_goals cases stepped
      rename_i opened _
      exact ⟨rfl, by simp, fun _ => dropping_setStream opened rfl, fun _ _ live => live,
        fun _ call _ _ found restores => .inl ⟨call, found, restores⟩⟩
  | dropGuard sub =>
      simp only [ClientManager.step, ClientManager.dropGuard] at stepped
      repeat' split at stepped
      all_goals cases stepped
      rename_i opened _
      refine ⟨rfl, by simp, fun _ => ?_, fun _ _ live => live,
        fun _ call _ _ found restores => .inl ⟨call, found, restores⟩⟩
      have same : (bus.setEntry sub none).streams sub = some _ := opened
      exact dropping_setStream same rfl

theorem loopAfter_of_ne {input : ClientManager.Input} (goesOn : ∀ b, input ≠ .finish b) :
    s.loopAfter input = s.loop := by
  cases input <;> first | rfl | exact absurd rfl (goesOn _)

theorem Books.finish_spec (books : Books config s log) {b : ℕ} {bus : ClientManager}
    {emittedBus : List ClientManager.Record}
    (moved : s.bus.step (.finish b) = some (bus, emittedBus)) :
    s.loop = .broadcasting b ∧ (∃ call, s.bus.broadcasts b = some call ∧
      call.iterated = true) ∧
      bus = s.bus.setBroadcast b none := by
  simp only [ClientManager.step, ClientManager.finish] at moved
  cases found : s.bus.broadcasts b with
  | none => simp [found] at moved
  | some call =>
      simp only [found] at moved
      split_ifs at moved with ends
      cases moved
      exact ⟨books.only b call found, ⟨call, rfl, ends.1⟩, rfl⟩

/-- The broadcast under way keeps its message until it finishes. -/
theorem Books.moveBus (books : Books config s log) {input : ClientManager.Input}
    {bus : ClientManager} {emittedBus : List ClientManager.Record} (inner : Inner input = true)
    (moved : s.bus.step input = some (bus, emittedBus)) :
    Books config { s with bus, loop := s.loopAfter input } log := by
  have spec := inner_spec inner moved
  by_cases finishes : ∃ b, input = .finish b
  · obtain ⟨b, rfl⟩ := finishes
    obtain ⟨isLoop, _, rfl⟩ := books.finish_spec moved
    refine ⟨?_, fun other same => (by cases same), books.nodup,
      fun lateJoin k item isLast => ?_⟩
    · intro other call found
      by_cases same : other = b
      · simp [same] at found
      · have isOther := books.only other call (by simpa [same] using found)
        rw [isLoop] at isOther
        exact absurd (Loop.broadcasting.inj isOther).symm same
    · refine books.cached lateJoin k item ?_
      rw [ahead, isLoop]
      exact isLast
  · have goesOn := not_exists.mp finishes
    have was {b : ℕ} {call : Broadcast} (found : bus.broadcasts b = some call) :
        ∃ before, s.bus.broadcasts b = some before ∧ call.message = before.message := by
      rcases (ClientManager.Step.of_step moved).call_cases found with
        ⟨before, was, same, _⟩ | ⟨_, _, began⟩
      · exact ⟨before, was, same⟩
      · have same := ClientManager.begun_of_step moved fun other isBroadcast => by
          rw [isBroadcast] at inner
          cases inner
        rw [began] at same
        exact absurd same (Nat.succ_ne_self _)
    rw [loopAfter_of_ne goesOn]
    refine ⟨fun b call found => ?_, fun b isLoop => ?_, books.nodup, books.cached⟩
    · obtain ⟨before, found, _⟩ := was found
      exact books.only b before found
    · obtain ⟨before, rest, found, isLast⟩ := books.under b isLoop
      obtain ⟨call, isCall⟩ := Option.isSome_iff_exists.mp
        (spec.goesOn b (goesOn b) (by simp [found]))
      obtain ⟨same, wasSame, isMessage⟩ := was isCall
      obtain rfl := Option.some.inj (wasSame.symm.trans found)
      exact ⟨call, rest, isCall, isMessage ▸ isLast⟩

structure Dropped (s after : Server) (streams : List ℕ) : Prop where
  cache : after.cache = s.cache
  loop : after.loop = s.loop
  sessions : after.sessions = s.sessions
  nextClient : after.nextClient = s.nextClient
  broadcasts : after.bus.broadcasts = s.bus.broadcasts
  subs : after.bus.subs = s.bus.subs
  nextSub : after.bus.nextSub = s.bus.nextSub
  others : ∀ stream ∉ streams, after.bus.streams stream = s.bus.streams stream

theorem dropped_dropStream (s : Server) (stream : ℕ) :
    Dropped s (s.dropStream stream) [stream] := by
  unfold dropStream ClientManager.drop
  cases opened : s.bus.streams stream with
  | none => exact ⟨rfl, rfl, rfl, rfl, rfl, rfl, rfl, fun _ _ => rfl⟩
  | some before =>
      dsimp only
      by_cases leaving : before.dropping = true
      · rw [if_pos leaving]
        exact ⟨rfl, rfl, rfl, rfl, rfl, rfl, rfl, fun _ _ => rfl⟩
      · rw [if_neg leaving]
        refine ⟨rfl, rfl, rfl, rfl, rfl, rfl, rfl, fun other different => ?_⟩
        have isOther : other ≠ stream := by simpa using different
        simp [isOther]

theorem dropped_dropStreams (s : Server) (streams : List ℕ) :
    Dropped s (streams.foldl dropStream s) streams := by
  induction streams generalizing s with
  | nil => exact ⟨rfl, rfl, rfl, rfl, rfl, rfl, rfl, fun _ _ => rfl⟩
  | cons stream streams inductionHypothesis =>
      have one := dropped_dropStream s stream
      have rest := inductionHypothesis (s.dropStream stream)
      rw [List.foldl_cons]
      refine ⟨rest.cache.trans one.cache, rest.loop.trans one.loop,
        rest.sessions.trans one.sessions, rest.nextClient.trans one.nextClient,
        rest.broadcasts.trans one.broadcasts, rest.subs.trans one.subs,
        rest.nextSub.trans one.nextSub, fun other different => ?_⟩
      rw [List.mem_cons, not_or] at different
      rw [rest.others other different.2, one.others other (by simpa using different.1)]

theorem Books.step (books : Books config s log) (stepped : Step config s input after emitted) :
    Books config after (log ++ emitted) := by
  cases stepped with
  | taken waits => exact books.take waits _
  | began holds => exact books.begin holds
  | moved inner moved =>
      rw [List.append_nil]
      exact books.moveBus inner moved
  | disconnected _ =>
      exact books.frame (dropped_dropStreams ..).broadcasts (dropped_dropStreams ..).loop
        (dropped_dropStreams ..).cache rfl
  | unsubscribed _ _ _ _ =>
      exact books.frame (dropped_dropStream ..).broadcasts (dropped_dropStream ..).loop
        (dropped_dropStream ..).cache rfl
  | pulled _ _ _ polled =>
      obtain ⟨current, rest, _, _, _, rfl⟩ := ClientManager.poll_spec polled
      exact books.frame rfl rfl rfl rfl
  | burst _ _ _ =>
      refine books.frame rfl rfl rfl ?_
      split <;> rfl
  | _ => exact books.frame rfl rfl rfl rfl

structure Owned (s : Server) (log : List Record) : Prop where
  nodup : ∀ client session, s.sessions client = some session → (WsSession.streams session).Nodup
  used : ∀ client session, s.sessions client = some session →
    ∀ stream ∈ WsSession.streams session,
      (s.bus.streams stream).map SubStream.dropping = some false
  apart : ∀ client other session twin stream, s.sessions client = some session →
    s.sessions other = some twin → stream ∈ WsSession.streams session →
    stream ∈ WsSession.streams twin → client = other
  funnel : ∀ client session, s.sessions client = some session →
    ∀ event ∈ session.funnel, event.stream < s.bus.nextSub
  log : ∀ record ∈ log, ∀ stream, record.stream = some stream → stream < s.bus.nextSub

theorem owned_new (config : Config) : Owned (new config) [] :=
  ⟨by simp [new], by simp [new], by simp [new], by simp [new], by simp⟩

theorem Owned.of_session (owned : Owned s log) (client : ℕ) (session : WsSession)
    (found : s.sessions client = some session) (next : Option WsSession)
    (sessions : after.sessions = Function.update s.sessions client next)
    (nextSub : s.bus.nextSub ≤ after.bus.nextSub)
    (nodup : ∀ now, next = some now → (WsSession.streams now).Nodup)
    (kept : ∀ now, next = some now → ∀ stream ∈ WsSession.streams now,
      stream ∈ WsSession.streams session ∧
        (after.bus.streams stream).map SubStream.dropping = some false)
    (others : ∀ other twin, s.sessions other = some twin → other ≠ client →
      ∀ stream ∈ WsSession.streams twin,
        (after.bus.streams stream).map SubStream.dropping = some false)
    (funnel : ∀ now, next = some now →
      ∀ event ∈ now.funnel, event.stream < after.bus.nextSub)
    (emits : ∀ record ∈ emitted, ∀ stream, record.stream = some stream →
      stream < after.bus.nextSub) : Owned after (log ++ emitted) := by
  have isNow {now : WsSession} (isSession : after.sessions client = some now) : next =
      some now := by
    simpa [sessions] using isSession
  have was {other : ℕ} {twin : WsSession} (different : other ≠ client)
      (isSession : after.sessions other = some twin) : s.sessions other = some twin := by
    simpa [sessions, different] using isSession
  -- Whatever session holds a stream now, its client's session held it before.
  have before {other stream : ℕ} {twin : WsSession} (isSession : after.sessions other = some twin)
      (holds : stream ∈ WsSession.streams twin) :
      ∃ old, s.sessions other = some old ∧ stream ∈ WsSession.streams old := by
    by_cases same : other = client
    · subst same
      exact ⟨session, found, (kept twin (isNow isSession) stream holds).1⟩
    · exact ⟨twin, was same isSession, holds⟩
  refine ⟨?_, ?_, ?_, ?_, ?_⟩
  · intro other twin isSession
    by_cases same : other = client
    · subst same
      exact nodup twin (isNow isSession)
    · exact owned.nodup other twin (was same isSession)
  · intro other twin isSession stream holds
    by_cases same : other = client
    · subst same
      exact (kept twin (isNow isSession) stream holds).2
    · exact others other twin (was same isSession) same stream holds
  · intro one other first second stream isFirst isSecond inFirst inSecond
    obtain ⟨firstOld, wasFirst, heldFirst⟩ := before isFirst inFirst
    obtain ⟨secondOld, wasSecond, heldSecond⟩ := before isSecond inSecond
    exact owned.apart one other firstOld secondOld stream wasFirst wasSecond heldFirst heldSecond
  · intro other twin isSession event mem
    by_cases same : other = client
    · subst same
      exact funnel twin (isNow isSession) event mem
    · exact Nat.lt_of_lt_of_le (owned.funnel other twin (was same isSession) event mem) nextSub
  · intro record mem stream about
    rcases List.mem_append.mp mem with old | new
    · exact Nat.lt_of_lt_of_le (owned.log record old stream about) nextSub
    · exact emits record new stream about

theorem Owned.of_bus (owned : Owned s log) (sessions : after.sessions = s.sessions)
    (nextSub : s.bus.nextSub ≤ after.bus.nextSub)
    (dropping : ∀ stream, (after.bus.streams stream).map SubStream.dropping =
      (s.bus.streams stream).map SubStream.dropping)
    (emits : ∀ record ∈ emitted, record.stream = none) : Owned after (log ++ emitted) := by
  refine ⟨sessions ▸ owned.nodup, ?_, sessions ▸ owned.apart, ?_, ?_⟩
  · intro client session found stream holds
    rw [sessions] at found
    rw [dropping]
    exact owned.used client session found stream holds
  · intro client session found event mem
    rw [sessions] at found
    exact Nat.lt_of_lt_of_le (owned.funnel client session found event mem) nextSub
  · intro record mem stream about
    rcases List.mem_append.mp mem with old | new
    · exact Nat.lt_of_lt_of_le (owned.log record old stream about) nextSub
    · rw [emits record new] at about
      cases about

theorem Owned.connect (owned : Owned s log) (permissions : Permissions) :
    Owned (s.connect config permissions).1 (log ++ (s.connect config permissions).2) := by
  have none {client : ℕ} {session : WsSession}
      (isNew : client = s.nextClient)
      (found : (s.connect config permissions).1.sessions client = some session) :
      WsSession.streams session = [] ∧ session.funnel = [] := by
    subst isNew
    obtain rfl : ⟨permissions, .resolvePermissions config.records permissions, none, [], []⟩ =
      session := by simpa [Server.connect, setSession] using found
    exact ⟨rfl, rfl⟩
  have was {client : ℕ} {session : WsSession} (old : client ≠ s.nextClient)
      (found : (s.connect config permissions).1.sessions client = some session) :
      s.sessions client = some session := by
    simpa [Server.connect, setSession, old] using found
  refine ⟨?_, ?_, ?_, ?_, ?_⟩
  · intro client session found
    by_cases same : client = s.nextClient
    · rw [(none same found).1]
      exact List.nodup_nil
    · exact owned.nodup client session (was same found)
  · intro client session found stream holds
    by_cases same : client = s.nextClient
    · rw [(none same found).1] at holds
      cases holds
    · exact owned.used client session (was same found) stream holds
  · intro client other session twin stream found foundToo holds holdsToo
    by_cases same : client = s.nextClient
    · rw [(none same found).1] at holds
      cases holds
    · by_cases sameToo : other = s.nextClient
      · rw [(none sameToo foundToo).1] at holdsToo
        cases holdsToo
      · exact owned.apart client other session twin stream (was same found) (was sameToo foundToo)
          holds holdsToo
  · intro client session found event mem
    by_cases same : client = s.nextClient
    · rw [(none same found).2] at mem
      cases mem
    · exact owned.funnel client session (was same found) event mem
  · intro record mem stream about
    rcases List.mem_append.mp mem with old | new
    · exact owned.log record old stream about
    · rw [List.mem_singleton.mp new] at about
      cases about

theorem Owned.lt_nextSub (owned : Owned s log) (sound : s.bus.Sound) {client : ℕ}
    (found : s.sessions client = some session) (holds : stream ∈ WsSession.streams session) :
    stream < s.bus.nextSub := by
  by_contra late
  have used := owned.used client session found stream holds
  rw [sound.fresh stream (Nat.le_of_not_lt late)] at used
  cases used

theorem Owned.accept (owned : Owned s log) (sound : s.bus.Sound) {client : ℕ}
    (found : s.sessions client = some session) (idle : session.accepting = none)
    (subId topic : String) :
    Owned { s.setSession client (some { session with
        accepting := some { subId, topic, stream := s.bus.nextSub } }) with
      bus := (s.bus.subscribe topic session.recordPerms).1 }
      (log ++ [.accepted client s.bus.nextSub topic]) := by
  let now : WsSession :=
    { session with accepting := some { subId, topic, stream := s.bus.nextSub } }
  let next : Server := { s.setSession client (some now) with
    bus := (s.bus.subscribe topic session.recordPerms).1 }
  have streams : WsSession.streams now = s.bus.nextSub :: WsSession.streams session := by
    simp [now, WsSession.streams, idle]
  have isNow {other : WsSession} (isSession : next.sessions client = some other) : now = other := by
    simpa [next, setSession] using isSession
  have was {other : ℕ} {twin : WsSession} (different : other ≠ client)
      (isSession : next.sessions other = some twin) : s.sessions other = some twin := by
    simpa [next, setSession, different] using isSession
  -- A stream is the new one, of this client, or was in the session of its client before.
  have before {other stream : ℕ} {twin : WsSession} (isSession : next.sessions other = some twin)
      (holds : stream ∈ WsSession.streams twin) :
      other = client ∧ stream = s.bus.nextSub ∨ stream < s.bus.nextSub ∧
        ∃ old, s.sessions other = some old ∧ stream ∈ WsSession.streams old := by
    by_cases same : other = client
    · subst same
      obtain rfl := isNow isSession
      rw [streams] at holds
      rcases List.mem_cons.mp holds with isNew | old
      · exact .inl ⟨rfl, isNew⟩
      · exact .inr ⟨owned.lt_nextSub sound found old, session, found, old⟩
    · exact .inr ⟨owned.lt_nextSub sound (was same isSession) holds, twin,
        was same isSession, holds⟩
  have queues {stream : ℕ} (old : stream ≠ s.bus.nextSub) :
      next.bus.streams stream = s.bus.streams stream := by
    simp [next, ClientManager.subscribe, old]
  refine ⟨?_, ?_, ?_, ?_, ?_⟩
  · intro other twin isSession
    by_cases same : other = client
    · subst same
      obtain rfl := isNow isSession
      rw [streams, List.nodup_cons]
      exact ⟨fun holds => Nat.lt_irrefl _ (owned.lt_nextSub sound found holds),
        owned.nodup other session found⟩
    · exact owned.nodup other twin (was same isSession)
  · intro other twin isSession stream holds
    rcases before isSession holds with ⟨_, rfl⟩ | ⟨early, old, wasSession, held⟩
    · simp [ClientManager.subscribe]
    · rw [queues (Nat.ne_of_lt early)]
      exact owned.used other old wasSession stream held
  · intro one other first second stream isFirst isSecond inFirst inSecond
    rcases before isFirst inFirst with ⟨isOne, new⟩ | ⟨early, old, wasFirst, held⟩
    · rcases before isSecond inSecond with ⟨isOther, _⟩ | ⟨early, _⟩
      · exact isOne.trans isOther.symm
      · exact absurd new (Nat.ne_of_lt early)
    · rcases before isSecond inSecond with ⟨_, new⟩ | ⟨_, oldToo, wasSecond, heldToo⟩
      · exact absurd new (Nat.ne_of_lt early)
      · exact owned.apart one other old oldToo stream wasFirst wasSecond held heldToo
  · intro other twin isSession event mem
    by_cases same : other = client
    · subst same
      obtain rfl := isNow isSession
      exact Nat.lt_succ_of_lt (owned.funnel other session found event mem)
    · exact Nat.lt_succ_of_lt (owned.funnel other twin (was same isSession) event mem)
  · intro record mem stream about
    rcases List.mem_append.mp mem with old | new
    · exact Nat.lt_succ_of_lt (owned.log record old stream about)
    · rw [List.mem_singleton.mp new] at about
      cases about

theorem Owned.rearrange (owned : Owned s log) {client : ℕ}
    (found : s.sessions client = some session)
    (next : WsSession) (streams : (WsSession.streams next).Perm (WsSession.streams session))
    (funnel : ∀ event ∈ next.funnel, event ∈ session.funnel)
    (emits : ∀ record ∈ emitted, ∀ stream, record.stream = some stream →
      stream < s.bus.nextSub) :
    Owned (s.setSession client (some next)) (log ++ emitted) := by
  have isNext {now : WsSession} (same : some next = some now) : next = now := Option.some.inj same
  refine owned.of_session client session found (some next) rfl (Nat.le_refl _) ?_ ?_ ?_ ?_ emits
  · intro now same
    exact isNext same ▸ streams.nodup_iff.mpr (owned.nodup client session found)
  · intro now same stream holds
    have held := streams.mem_iff.mp (isNext same ▸ holds)
    exact ⟨held, owned.used client session found stream held⟩
  · exact fun other twin isSession _ => owned.used other twin isSession
  · intro now same event mem
    exact owned.funnel client session found event (funnel event (isNext same ▸ mem))

theorem map_set_of_getElem? {α β : Type*} {items : List α} {index : ℕ} {item other : α}
    {f : α → β} (isItem : items[index]? = some item) (same : f other = f item) :
    (items.set index other).map f = items.map f := by
  obtain ⟨inside, isAt⟩ := List.getElem?_eq_some_iff.mp isItem
  have insideToo : index < (items.map f).length := by simpa using inside
  have isOld : (items.map f)[index] = f item := by rw [List.getElem_map, isAt]
  rw [List.map_set, same, ← isOld, List.set_getElem_self]

theorem Owned.pull (owned : Owned s log) (sound : s.bus.Sound) {client index : ℕ}
    {pump next : Pump}
    {bus : ClientManager} {yielded : ℕ} {item : Queued} (found : s.sessions client = some session)
    (idle : session.accepting = none) (isPump : session.pumps[index]? = some pump)
    (polled : s.bus.poll pump.stream = some (bus, [.yielded yielded item]))
    (same : next.stream = pump.stream) :
    Owned { s.setSession client (some { session with
        accepting := none
        pumps := session.pumps.set index next
        funnel := if session.funnel.length < eventBuffer then
          session.funnel ++ [eventOf pump item] else session.funnel }) with bus } log := by
  obtain ⟨current, rest, opened, _, _, rfl⟩ := ClientManager.poll_spec polled
  have held : pump.stream ∈ WsSession.streams session :=
    List.mem_append_right _ (List.mem_map_of_mem (List.mem_of_getElem? isPump))
  have streams : WsSession.streams { session with
      accepting := none
      pumps := session.pumps.set index next
      funnel := if session.funnel.length < eventBuffer then
        session.funnel ++ [eventOf pump item] else session.funnel } =
            WsSession.streams session := by
    simp only [WsSession.streams, idle, map_set_of_getElem? isPump same]
  have dropping (stream : ℕ) : ((s.bus.setStream pump.stream
      { current with queue := rest }).streams stream).map SubStream.dropping =
      (s.bus.streams stream).map SubStream.dropping := dropping_setStream opened rfl
  have isNow {next now : WsSession} (same : some next = some now) : next = now :=
    Option.some.inj same
  rw [← List.append_nil log]
  refine owned.of_session client session found (some _) rfl (Nat.le_refl _) ?_ ?_ ?_ ?_ (by simp)
  · intro now isNext
    rw [← isNow isNext, streams]
    exact owned.nodup client session found
  · intro now isNext stream holds
    rw [← isNow isNext, streams] at holds
    exact ⟨holds, (dropping stream).trans (owned.used client session found stream holds)⟩
  · exact fun other twin isSession _ stream holds =>
      (dropping stream).trans (owned.used other twin isSession stream holds)
  · intro now isNext event mem
    rw [← isNow isNext] at mem
    dsimp only at mem
    split at mem
    · rcases List.mem_append.mp mem with old | new
      · exact owned.funnel client session found event old
      · rw [List.mem_singleton.mp new]
        exact owned.lt_nextSub sound found held
    · exact owned.funnel client session found event mem

theorem Owned.drop (owned : Owned s log) {client : ℕ} (found : s.sessions client = some session)
    (next : Option WsSession) (streams : List ℕ)
    (given : ∀ stream ∈ streams, stream ∈ WsSession.streams session)
    (nodup : ∀ now, next = some now → (WsSession.streams now).Nodup)
    (kept : ∀ now, next = some now → ∀ stream ∈ WsSession.streams now,
      stream ∈ WsSession.streams session ∧ stream ∉ streams)
    (funnel : ∀ now, next = some now → ∀ event ∈ now.funnel, event ∈ session.funnel) :
    Owned (streams.foldl dropStream (s.setSession client next)) log := by
  have dropped := dropped_dropStreams (s.setSession client next) streams
  rw [← List.append_nil log]
  refine owned.of_session client session found next dropped.sessions
    (Nat.le_of_eq dropped.nextSub.symm) nodup ?_ ?_ ?_ (by simp)
  · intro now isNext stream holds
    obtain ⟨held, still⟩ := kept now isNext stream holds
    rw [dropped.others stream still]
    exact ⟨held, owned.used client session found stream held⟩
  · intro other twin isSession different stream holds
    rw [dropped.others stream fun isDropped =>
      different (owned.apart other client twin session stream isSession found holds
        (given stream isDropped))]
    exact owned.used other twin isSession stream holds
  · intro now isNext event mem
    rw [dropped.nextSub]
    exact owned.funnel client session found event (funnel now isNext event mem)

theorem Owned.step (owned : Owned s log) (sound : s.bus.Sound)
    (stepped : Step config s input after emitted) :
    Owned after (log ++ emitted) := by
  cases stepped with
  | connected permissions => exact owned.connect permissions
  | disconnected found =>
      rw [List.append_nil]
      exact owned.drop found none _ (fun _ mem => mem) (fun _ isNow => (by cases isNow))
        (fun _ isNow => (by cases isNow)) (fun _ isNow => (by cases isNow))
  | taken waits => exact owned.of_bus rfl (Nat.le_refl _) (fun _ => rfl) (by simp [Record.stream])
  | began holds => exact owned.of_bus rfl (Nat.le_refl _) (fun _ => rfl) (by simp [Record.stream])
  | moved inner moved =>
      have spec := inner_spec inner moved
      exact owned.of_bus rfl (Nat.le_of_eq spec.nextSub.symm) spec.dropping (by simp)
  | refused _ _ _ | ignored _ _ | listed _ _ | failed _ _ _ | queried _ _ _ =>
      exact owned.of_bus rfl (Nat.le_refl _) (fun _ => rfl) (by simp [Record.stream])
  | accepted subId topic found idle _ => exact owned.accept sound found idle subId topic
  | acknowledged found accepts _ =>
      exact owned.rearrange found _ (by simp [WsSession.streams, accepts]) (fun _ mem => mem)
        (by simp [Record.stream])
  | @read client session accepting keys found accepts _ _ =>
      refine owned.rearrange found _ (by simp [WsSession.streams, accepts]) (fun _ mem => mem) ?_
      have known : accepting.stream < s.bus.nextSub :=
        owned.lt_nextSub sound found (by simp [WsSession.streams, accepts])
      simpa [Record.stream] using known
  | @burst client session accepting snap left found accepts _ =>
      refine owned.rearrange found _ (by simp [WsSession.streams, accepts]) (fun _ mem => mem) ?_
      have known : accepting.stream < s.bus.nextSub :=
        owned.lt_nextSub sound found (by simp [WsSession.streams, accepts])
      intro record mem stream about
      split at mem
      · rw [List.mem_singleton.mp mem] at about
        exact Option.some.inj about ▸ known
      · cases mem
  | pumped found accepts _ =>
      refine owned.rearrange found _ ?_ (fun _ mem => mem) (by simp [Record.stream])
      simp only [WsSession.streams, accepts, Option.toList_none, Option.toList_some, List.map_nil,
        List.map_append, List.map_cons, List.nil_append, List.singleton_append]
      exact List.perm_append_singleton ..
  | @unsubscribed client session pump subId found idle isPump =>
      rw [List.append_nil]
      have streams : WsSession.streams session = session.pumps.map Pump.stream := by
        simp [WsSession.streams, idle]
      have split : (session.pumps.map Pump.stream).Perm
          (pump.stream :: (session.pumps.erase pump).map Pump.stream) :=
        (List.perm_cons_erase isPump).map _
      have nodup := split.nodup_iff.mp (streams ▸ owned.nodup client session found)
      have isNow {next now : WsSession} (same : some next = some now) : next = now :=
        Option.some.inj same
      have given : pump.stream ∈ WsSession.streams session :=
        streams ▸ List.mem_map_of_mem isPump
      refine owned.drop found (some _) [pump.stream] (by simpa using given) ?_ ?_ ?_
      · intro now isNext
        rw [← isNow isNext]
        simpa [WsSession.streams, idle] using (List.nodup_cons.mp nodup).2
      · intro now isNext stream holds
        rw [← isNow isNext] at holds
        have held : stream ∈ (session.pumps.erase pump).map Pump.stream := by
          simpa [WsSession.streams, idle] using holds
        refine ⟨streams ▸ split.mem_iff.mpr (List.mem_cons_of_mem _ held),
          fun isDropped => ?_⟩
        exact (List.nodup_cons.mp nodup).1 (List.mem_singleton.mp isDropped ▸ held)
      · intro now isNext event mem
        rw [← isNow isNext] at mem
        exact mem
  | pulled found idle isPump polled =>
      rw [List.append_nil]
      exact owned.pull sound found idle isPump polled rfl
  | @forwarded client session event funnel found idle queued =>
      refine owned.rearrange found _ (by simp [WsSession.streams, idle])
        (fun _ mem => queued ▸ List.mem_cons_of_mem _ mem) ?_
      have known := owned.funnel client session found event (queued ▸ List.mem_cons_self)
      simpa [Record.stream] using known

end Server

end AimDb.WebSocket
