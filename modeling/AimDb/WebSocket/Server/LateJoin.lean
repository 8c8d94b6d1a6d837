import AimDb.WebSocket.Server.Feed

/-!
# Late join leaves no client behind

Every step of the server is a step of each subscription or leaves it alone.
-/

namespace AimDb.WebSocket.Server

open Session (Payload Stamp Outbound)
open Session.TopicMatch Transition
open Feed (Subscriber Follows Latest CaughtUp ofKey)

def Clear (stream : ℕ) (s : Server) : Input → Prop
  | .bus (.trySend b) => ∀ call ∈ s.bus.broadcasts b, call.hand.entry = some stream →
      ∀ on ∈ s.bus.streams stream, on.queue.length < s.bus.subCapacity
  | .pull client index => ∀ session ∈ s.sessions client, ∀ pump ∈ session.pumps[index]?,
      pump.stream = stream → session.funnel.length < eventBuffer
  | _ => True

instance (stream : ℕ) (s : Server) : ∀ input, Decidable (Clear stream s input)
  | .bus (.trySend b) => inferInstanceAs (Decidable (∀ call ∈ s.bus.broadcasts b,
      call.hand.entry = some stream →
        ∀ on ∈ s.bus.streams stream, on.queue.length < s.bus.subCapacity))
  | .pull client index => inferInstanceAs (Decidable (∀ session ∈ s.sessions client,
      ∀ pump ∈ session.pumps[index]?, pump.stream = stream →
      session.funnel.length < eventBuffer))
  | .connect _ | .disconnect _ | .next _ | .broadcast | .subscribe _ _ _ | .acknowledge _
  | .snapshots _ _ | .snapshot _ | .pump _ | .unsubscribe _ _ | .forward _ | .list _ _ | .query _ _
  | .bus (.subscribe _ _) | .bus (.broadcast _) | .bus (.visit _ _) | .bus (.restore _)
  | .bus (.endIteration _) | .bus (.prune _) | .bus (.finish _) | .bus (.poll _) | .bus (.drop _)
  | .bus (.dropReceiver _) | .bus (.dropGuard _) => isTrue trivial

structure Tracked (config : Config) (s : Server) (log : List Record) (client : ℕ)
    (session : WsSession) (stream : ℕ) (topic : String) : Prop where
  pattern : ∀ entry, s.bus.subs stream = some entry → entry.pattern = topic
  stage : ∀ accepting, session.accepting = some accepting → accepting.stream = stream →
    (log.any (Record.isRead client stream) = true ↔ ∃ left, accepting.stage = .bursting left)
  followed : Followed config s log client session stream topic

/-- All that holds in a run with late join that is clear for a stream. -/
structure Joined (config : Config) (stream : ℕ) (s : Server) (log : List Record) : Prop where
  base : Invariant config s log
  books : Books config s log
  owned : Owned s log
  unfilled : ∀ b call amount, s.bus.broadcasts b = some call →
    call.hand ≠ .restoring stream amount
  tracked : ∀ client session topic, s.sessions client = some session →
    (stream, topic) ∈ subscriptions session → Tracked config s log client session stream topic

variable {config : Config} {s after : Server} {log emitted : List Record} {client stream : ℕ}
  {session next : WsSession} {topic : String}

theorem streams_eq (session : WsSession) :
    (subscriptions session).map Prod.fst = WsSession.streams session := by
  simp [subscriptions, WsSession.streams, Function.comp_def]

theorem mem_streams (subscribed : (stream, topic) ∈ subscriptions session) :
    stream ∈ WsSession.streams session :=
  streams_eq session ▸ List.mem_map_of_mem subscribed

theorem accepts_congr (perms : next.recordPerms = session.recordPerms) :
    accepts next topic = accepts session topic := by
  funext key
  rw [accepts, accepts, perms]

theorem Tracked.frame (tracked : Tracked config s log client session stream topic)
    (loop : after.loop = s.loop) (broadcasts : after.bus.broadcasts = s.bus.broadcasts)
    (streams : after.bus.streams stream = s.bus.streams stream)
    (subs : after.bus.subs stream = s.bus.subs stream)
    (silent : ∀ record ∈ emitted, Silent client stream record) :
    Tracked config after (log ++ emitted) client session stream topic where
  pattern := subs ▸ tracked.pattern
  stage := by
    have unread : emitted.any (Record.isRead client stream) = false := by
      rw [List.any_eq_false]
      exact fun record mem => by simp [(silent record mem).unread]
    rw [List.any_append, unread, Bool.or_false]
    exact tracked.stage
  followed := by
    rw [Followed, subscriber_silents silent, subscriber_congr loop broadcasts streams]
    exact tracked.followed

theorem Tracked.of_session (tracked : Tracked config s log client session stream topic)
    (perms : next.recordPerms = session.recordPerms)
    (stage : ∀ accepting, next.accepting = some accepting → accepting.stream = stream →
      (log.any (Record.isRead client stream) = true ↔ ∃ left, accepting.stage = .bursting left))
    (funnel : funnelled next stream = funnelled session stream)
    (left : leftOf next stream = leftOf session stream)
    (live : pumped next stream = pumped session stream) :
    Tracked config s log client next stream topic where
  pattern := tracked.pattern
  stage := stage
  followed := by
    have same : subscriber s log client next stream = subscriber s log client session stream := by
      rw [subscriber, subscriber, funnel, left, live]
    rw [Followed, same, accepts_congr perms]
    exact tracked.followed

theorem Followed.step {more : List Record}
    (followed : Followed config s log client session stream topic)
    (perms : next.recordPerms = session.recordPerms)
    (stepped : Feed.Step Message.key (accepts session topic)
      (fun message => config.asRaw message.payload)
      (subscriber s log client session stream) (subscriber after more client next stream)) :
    Followed config after more client next stream topic := by
  obtain ⟨missed, heard, shown, follows⟩ := followed
  rw [Followed, accepts_congr perms]
  exact follows.step stepped

theorem Joined.entry (joined : Joined config stream s log)
    (found : s.sessions client = some session)
    (subscribed : (stream, topic) ∈ subscriptions session) :
    ∃ on entry, s.bus.streams stream = some on ∧ on.dropping = false ∧
      s.bus.subs stream = some entry ∧
      ∀ message : Message, entry.accepts message.topic message.recordIndex =
        accepts session topic message.key := by
  have held := mem_streams subscribed
  have used := joined.owned.used client session found stream held
  obtain ⟨on, opened, inUse⟩ := Option.map_eq_some_iff.mp used
  obtain ⟨entry, registered⟩ := Option.isSome_iff_exists.mp
    (joined.base.sound.kept stream on opened inUse).1
  refine ⟨on, entry, opened, inUse, registered, fun message => ?_⟩
  have perms :=
    ((joined.base.sessions client session found).1.streams stream held).entry entry registered
  have pattern := (joined.tracked client session topic found subscribed).pattern entry registered
  rw [SubEntry.accepts, accepts, perms, pattern]
  rfl

theorem current_of_not_broadcasting (idle : ∀ b, s.loop ≠ .broadcasting b) :
    s.current = none := by
  unfold current
  cases loop : s.loop with
  | broadcasting b => exact absurd loop (idle b)
  | _ => rfl

theorem current_eq {b : ℕ} (loop : s.loop = .broadcasting b) :
    s.current = s.bus.broadcasts b := by
  rw [current, loop]

theorem Joined.take (joined : Joined config stream s log) (waits : s.loop = .waiting)
    (message : Message) (found : s.sessions client = some session)
    (subscribed : (stream, topic) ∈ subscriptions session) :
    Tracked config { s with
      cache := if config.lateJoin then
        s.cache.insert ⟨message.recordIndex, message.topic, message.payload, message.ts⟩
        else s.cache
      loop := .taken message } (log ++ [.taken message]) client session stream topic := by
  have tracked := joined.tracked client session topic found subscribed
  have silent : ∀ record ∈ [Record.taken message], Silent client stream record := by
    intro record mem
    rw [List.mem_singleton.mp mem]
    exact silent_of rfl fun isAsked => by cases isAsked
  have idle : s.current = none := current_of_not_broadcasting (by simp [waits])
  refine ⟨tracked.pattern, (tracked.frame rfl rfl rfl rfl silent).stage,
    tracked.followed.step rfl ?_⟩
  rw [subscriber_silents silent]
  have taken : subscriber { s with
      cache := if config.lateJoin then
        s.cache.insert ⟨message.recordIndex, message.topic, message.payload, message.ts⟩
        else s.cache
      loop := .taken message } log client session stream =
      { subscriber s log client session stream with ahead := some message } := by
    rw [subscriber, subscriber, idle]
    rfl
  rw [taken]
  exact .take message (by simp [subscriber, ahead, waits]) (by simp [subscriber, idle])

theorem Joined.begin (joined : Joined config stream s log) {message : Message}
    (holds : s.loop = .taken message) (found : s.sessions client = some session)
    (subscribed : (stream, topic) ∈ subscriptions session) :
    Tracked config { s with bus := (s.bus.begin message).1, loop := .broadcasting s.bus.begun }
      (log ++ [.broadcast message]) client session stream topic := by
  have tracked := joined.tracked client session topic found subscribed
  have known : stream < s.bus.nextSub :=
    joined.owned.lt_nextSub joined.base.sound found (mem_streams subscribed)
  have idle : s.current = none := current_of_not_broadcasting (by simp [holds])
  have sinceNow : since client stream (log ++ [.broadcast message]) =
      if log.any (Record.isRead client stream) then since client stream log ++ [message]
      else since client stream log := by
    rw [since_append _ fun isRead => (by cases isRead)]
    split
    · rfl
    · rename_i unread
      exact (since_of_unread (by simpa using unread)).symm
  refine ⟨tracked.pattern, ?_, tracked.followed.step rfl ?_⟩
  · rw [List.any_append]
    simpa [Record.isRead] using tracked.stage
  · have began : subscriber { s with
      bus := (s.bus.begin message).1, loop := .broadcasting s.bus.begun }
        (log ++ [.broadcast message]) client session stream =
        { subscriber s log client session stream with
          begun := (subscriber s log client session stream).begun ++ [message]
          ahead := none
          offer := some message
          since := if (subscriber s log client session stream).read then
            (subscriber s log client session stream).since ++ [message]
            else (subscriber s log client session stream).since } := by
      have under : current { s with
          bus := (s.bus.begin message).1, loop := .broadcasting s.bus.begun } =
          some { message, limit := s.bus.nextSub } := by simp [current, ClientManager.begin]
      have queued : (s.bus.begin message).1.queued stream = s.bus.queued stream := rfl
      simp [subscriber, ahead, idle, under, queued, Broadcast.offered, Broadcast.held, sinceNow,
        Record.begun, Record.isRead, Record.item, Record.event, known]
    rw [began]
    exact .begin (by simp [subscriber, ahead, holds]) (by simp [subscriber, idle])
      (by simp [subscriber, idle])

/-- With no broadcast under way the bus holds nothing for a stream but its queue. -/
theorem Joined.moveIdle (joined : Joined config stream s log) {input : ClientManager.Input}
    {bus : ClientManager} {emittedBus : List ClientManager.Record} (inner : Inner input = true)
    (moved : s.bus.step input = some (bus, emittedBus)) (idle : ∀ b, s.loop ≠ .broadcasting b)
    (found : s.sessions client = some session)
    (subscribed : (stream, topic) ∈ subscriptions session) :
    subscriber { s with bus, loop := s.loopAfter input } log client session stream =
      subscriber s log client session stream := by
  have goesOn (b : ℕ) : input ≠ .finish b := by
    rintro rfl
    exact idle b (joined.books.finish_spec moved).1
  have none (b : ℕ) : s.bus.broadcasts b = none := by
    by_contra some
    obtain ⟨call, isCall⟩ := Option.ne_none_iff_exists'.mp some
    exact idle b (joined.books.only b call isCall)
  obtain ⟨on, entry, opened, used, _⟩ := joined.entry found subscribed
  rw [loopAfter_of_ne goesOn]
  refine subscriber_eq rfl ?_ ?_
  · rw [current_of_not_broadcasting idle]
    exact current_of_not_broadcasting idle
  · exact (ClientManager.Step.of_step moved).queued_eq joined.base.sound none opened used
      ((inner_spec inner moved).unpolled stream)

/-- A broadcast that finishes had come to the stream or gone past it. -/
theorem Joined.finish (joined : Joined config stream s log) {b : ℕ} {bus : ClientManager}
    {emittedBus : List ClientManager.Record}
    (moved : s.bus.step (.finish b) = some (bus, emittedBus)) :
    Feed.Step Message.key (accepts session topic) (fun message => config.asRaw message.payload)
      (subscriber s log client session stream)
      (subscriber { s with bus, loop := .waiting } log client session stream) := by
  obtain ⟨isLoop, ⟨call, isCall, iterated⟩, rfl⟩ := joined.books.finish_spec moved
  have under : s.current = some call := (current_eq isLoop).trans isCall
  have offered : call.offered stream = none := by simp [Broadcast.offered, iterated]
  have held : call.held stream = [] := ClientManager.held_of_hand fun carried carries => by
    rw [joined.base.sound.resting b call isCall iterated] at carries
    cases carries
  have idle : current { s with bus := s.bus.setBroadcast b none, loop := .waiting } = none := rfl
  have settled : subscriber { s with bus := s.bus.setBroadcast b none, loop := .waiting } log client
      session stream = { subscriber s log client session stream with early := false } := by
    simp [subscriber, idle, under, offered, held, ahead, isLoop]
  rw [settled]
  exact .settle (by simp [subscriber, under, offered])

theorem Joined.hear (joined : Joined config stream s log) {b : ℕ}
    (isLoop : s.loop = .broadcasting b)
    {bus : ClientManager} {emittedBus : List ClientManager.Record}
    (stepped : ClientManager.Step s.bus bus emittedBus) (goesOn : (bus.broadcasts b).isSome)
    (unpolled : ∀ item, emittedBus ≠ [.yielded stream item])
    (unfilled : ∀ b call amount, bus.broadcasts b = some call →
      call.hand ≠ .restoring stream amount)
    (found : s.sessions client = some session)
    (subscribed : (stream, topic) ∈ subscriptions session) :
    subscriber { s with bus } log client session stream = subscriber s log client session stream ∨
    Feed.Step Message.key (accepts session topic) (fun message => config.asRaw message.payload)
      (subscriber s log client session stream)
      (subscriber { s with bus } log client session stream) := by
  obtain ⟨call, _, isCall, _⟩ := joined.books.under b isLoop
  have only (other : ℕ) (state : Broadcast) (isState : s.bus.broadcasts other = some state) :
      other = b := by
    have isOther := joined.books.only other state isState
    rw [isLoop] at isOther
    exact (Loop.broadcasting.inj isOther).symm
  obtain ⟨on, entry, opened, used, registered, agrees⟩ := joined.entry found subscribed
  obtain ⟨next, isNext, message, limit, hears⟩ :=
    stepped.hears joined.base.sound isCall only opened used
    registered (fun next amount => unfilled b next amount) goesOn unpolled
  have under : s.current = some call := (current_eq isLoop).trans isCall
  have isLoopNow : ({ s with bus } : Server).loop = .broadcasting b := isLoop
  have underNow : current { s with bus } = some next := (current_eq isLoopNow).trans isNext
  have nowIs (offer : Option Message) (transit : List Message)
    (offered : next.offered stream = offer)
      (holds : bus.queued stream ++ next.held stream =
        s.bus.queued stream ++ call.held stream ++ transit) :
      subscriber { s with bus } log client session stream =
        { subscriber s log client session stream with
          offer, transit := (subscriber s log client session stream).transit ++ transit } := by
    simp only [subscriber, underNow, under, Option.bind_some, offered, Option.any_some, limit,
      Option.map_some, Option.getD_some, List.append_assoc, holds]
    rfl
  have offer : (subscriber s log client session stream).offer = call.offered stream := by
    simp [subscriber, under]
  cases hears with
  | same offered holds =>
      refine .inl ?_
      rw [nowIs (call.offered stream) [] offered (by rw [holds, List.append_nil]), ← offer,
        List.append_nil]
  | heard offered heard holds =>
      refine .inr ?_
      rw [nowIs none _ heard holds, agrees]
      exact .hear (by rw [offer, offered])
  | missed offered early missed holds =>
      refine .inr ?_
      rw [nowIs none [] missed (by rw [holds, List.append_nil]), List.append_nil]
      exact .miss (by rw [offer, offered]) (by simp [subscriber, under, early])

theorem Joined.moveBus (joined : Joined config stream s log) {input : ClientManager.Input}
    {bus : ClientManager} {emittedBus : List ClientManager.Record} (inner : Inner input = true)
    (moved : s.bus.step input = some (bus, emittedBus))
    (unfilled : ∀ b call amount, bus.broadcasts b = some call →
      call.hand ≠ .restoring stream amount)
    (found : s.sessions client = some session)
    (subscribed : (stream, topic) ∈ subscriptions session) :
    Tracked config { s with bus, loop := s.loopAfter input } log client session stream topic := by
  have tracked := joined.tracked client session topic found subscribed
  have known : stream < s.bus.nextSub :=
    joined.owned.lt_nextSub joined.base.sound found (mem_streams subscribed)
  refine ⟨fun entry isEntry => ?_, tracked.stage, ?_⟩
  · rcases (ClientManager.Step.of_step moved).entry_cases isEntry with
      ⟨before, was, same, _⟩ | ⟨new, _⟩
    · exact same ▸ tracked.pattern before was
    · exact absurd new (Nat.ne_of_lt known)
  by_cases idle : ∀ b, s.loop ≠ .broadcasting b
  · rw [Followed, joined.moveIdle inner moved idle found subscribed]
    exact tracked.followed
  obtain ⟨b, isLoop⟩ := not_forall_not.mp idle
  by_cases finishes : ∃ b, input = .finish b
  · obtain ⟨ended, rfl⟩ := finishes
    exact tracked.followed.step rfl (joined.finish moved)
  · have spec := inner_spec inner moved
    obtain ⟨call, _, isCall, _⟩ := joined.books.under b isLoop
    rw [loopAfter_of_ne (not_exists.mp finishes)]
    rcases joined.hear isLoop (.of_step moved)
      (spec.goesOn b (not_exists.mp finishes b) (by simp [isCall]))
      (spec.unpolled stream) unfilled found subscribed with same | stepped
    · rw [Followed, same]
      exact tracked.followed
    · exact tracked.followed.step rfl stepped

theorem iter_sublist (cache : SnapshotCache) (keys : List (ℕ × String)) :
    ((cache.iter keys).map Snapshot.key).Sublist keys := by
  induction keys with
  | nil => exact .slnil
  | cons key keys inductionHypothesis =>
      rw [SnapshotCache.iter, List.filterMap_cons]
      cases found : cache.find? fun snap => snap.key = key with
      | none => exact inductionHypothesis.cons _
      | some snap =>
          have isKey : snap.key = key := by simpa using List.find?_some found
          rw [List.map_cons, isKey]
          exact inductionHypothesis.cons_cons _

theorem mem_iter {cache : SnapshotCache} {keys : List (ℕ × String)}
    (nodup : (cache.map Snapshot.key).Nodup) (all : keys.Perm (cache.map Snapshot.key))
    {snap : Snapshot} (mem : snap ∈ cache) : snap ∈ cache.iter keys := by
  refine List.mem_filterMap.mpr ⟨snap.key, all.mem_iff.mpr (List.mem_map_of_mem mem), ?_⟩
  cases found : cache.find? fun other => other.key = snap.key with
  | none => simpa using List.find?_eq_none.mp found snap mem
  | some other =>
      have isKey : other.key = snap.key := by simpa using List.find?_some found
      rw [List.inj_on_of_nodup_map nodup (List.mem_of_find?_eq_some found) mem isKey]

theorem Books.latest (books : Books config s log) (lateJoin : config.lateJoin = true)
    (session : WsSession) (topic : String) {keys : List (ℕ × String)}
    (all : keys.Perm (s.cache.map Snapshot.key)) :
    Latest Message.key (accepts session topic) (log.filterMap Record.begun ++ s.ahead.toList)
      ((s.snapshotsOf config session topic keys).map Snapshot.message) where
  nodup := by
    have sameKey : Message.key ∘ Snapshot.message = Snapshot.key := rfl
    rw [List.map_map, sameKey, snapshotsOf, if_pos lateJoin]
    refine ((all.nodup_iff.mpr books.nodup).sublist (iter_sublist s.cache keys)).sublist ?_
    exact (List.filter_sublist.trans List.filter_sublist).map _
  last := by
    intro key accepted message isLast
    obtain ⟨snap, mem, rfl⟩ := books.cached lateJoin key message isLast
    have isKey : snap.message.key = key :=
      of_decide_eq_true (List.mem_filter.mp (List.mem_of_getLast? isLast)).2
    rw [← isKey, accepts, Bool.and_eq_true] at accepted
    refine List.mem_map_of_mem ?_
    rw [snapshotsOf, if_pos lateJoin, List.mem_filter, List.mem_filter]
    exact ⟨⟨mem_iter books.nodup all mem, accepted.1⟩, accepted.2⟩

theorem Joined.of_session (joined : Joined config stream s log) {asked : ℕ}
    (found : s.sessions asked = some session) (next : Option WsSession)
    (sessions : after.sessions = Function.update s.sessions asked next)
    (loop : after.loop = s.loop) (broadcasts : after.bus.broadcasts = s.bus.broadcasts)
    (others : stream ∉ WsSession.streams session → stream < s.bus.nextSub →
      after.bus.streams stream = s.bus.streams stream ∧ after.bus.subs stream = s.bus.subs stream)
    (about : ∀ record ∈ emitted, record.begun = none ∧ record.client = some asked)
    (own : ∀ now topic, next = some now → (stream, topic) ∈ subscriptions now →
      Tracked config after (log ++ emitted) asked now stream topic) (client : ℕ)
        (twin : WsSession)
    (topic : String) (isSession : after.sessions client = some twin)
    (subscribed : (stream, topic) ∈ subscriptions twin) :
    Tracked config after (log ++ emitted) client twin stream topic := by
  by_cases same : client = asked
  · subst same
    exact own twin topic (by simpa [sessions] using isSession) subscribed
  · have was : s.sessions client = some twin := by simpa [sessions, same] using isSession
    have notOwn : stream ∉ WsSession.streams session := fun held =>
      same (joined.owned.apart client asked twin session stream was found
        (mem_streams subscribed) held)
    obtain ⟨streams, subs⟩ := others notOwn
      (joined.owned.lt_nextSub joined.base.sound was (mem_streams subscribed))
    refine (joined.tracked client twin topic was subscribed).frame loop broadcasts streams subs ?_
    intro record mem
    obtain ⟨quiet, isAsked⟩ := about record mem
    refine silent_of quiet fun _ isClient => ?_
    exact same (Option.some.inj (isAsked.symm.trans isClient)).symm

theorem Tracked.setSession (tracked : Tracked config s log client session stream topic)
    (asked : ℕ) (next : Option WsSession) :
    Tracked config (s.setSession asked next) log client session stream topic :=
  ⟨tracked.pattern, tracked.stage, tracked.followed⟩

theorem Joined.of_setSession (joined : Joined config stream s log) {asked : ℕ}
    (found : s.sessions asked = some session) (next : WsSession)
    (about : ∀ record ∈ emitted, record.begun = none ∧ record.client = some asked)
    (own : ∀ topic, (stream, topic) ∈ subscriptions next →
      Tracked config s (log ++ emitted) asked next stream topic) (client : ℕ) (twin : WsSession)
    (topic : String) (isSession : (s.setSession asked (some next)).sessions client = some twin)
    (subscribed : (stream, topic) ∈ subscriptions twin) :
    Tracked config (s.setSession asked (some next)) (log ++ emitted) client twin stream topic := by
  refine joined.of_session found (some next) ?_ ?_ ?_ ?_ about ?_ client twin topic isSession
    subscribed
  · rfl
  · rfl
  · rfl
  · exact fun _ _ => ⟨rfl, rfl⟩
  · intro now topic same subscribed
    obtain rfl := Option.some.inj same
    exact (own topic subscribed).setSession _ _

theorem Joined.answer (joined : Joined config stream s log)
    (about : ∀ record ∈ emitted, record.begun = none ∧ record.stream = none) (client : ℕ)
    (session : WsSession) (topic : String) (found : s.sessions client = some session)
    (subscribed : (stream, topic) ∈ subscriptions session) :
    Tracked config s (log ++ emitted) client session stream topic :=
  (joined.tracked client session topic found subscribed).frame rfl rfl rfl rfl fun record mem =>
    silent_of (about record mem).1 fun isStream => by
      rw [(about record mem).2] at isStream
      cases isStream

theorem Tracked.acknowledge {accepting : Accepting}
    (tracked : Tracked config s log client session stream topic)
    (accepts : session.accepting = some accepting) (stage : accepting.stage = .registered) :
    Tracked config s (log ++ [.acknowledged client accepting.subId]) client { session with
      accepting := some { accepting with stage := .acknowledged } } stream topic := by
  refine Tracked.frame ?_ rfl rfl rfl rfl ?_
  · refine tracked.of_session rfl ?_ rfl ?_ rfl
    · intro current isCurrent isStream
      obtain rfl := Option.some.inj isCurrent
      rw [tracked.stage accepting accepts isStream, stage]
      simp
    · simp [leftOf, accepts, Accepting.left, stage]
  · intro record mem
    rw [List.mem_singleton.mp mem]
    exact silent_of rfl fun isAsked => by cases isAsked

/-- The cache is read once for a stream, before anything is sent on it. -/
theorem Tracked.read {accepting : Accepting} {left : List Snapshot}
    (tracked : Tracked config s log client session stream topic)
    (accepts : session.accepting = some accepting) (stage : accepting.stage = .acknowledged)
    (latest : accepting.stream = stream → Latest Message.key (Server.accepts session topic)
      (log.filterMap Record.begun ++ s.ahead.toList) (left.map Snapshot.message)) :
    Tracked config s (log ++ [.snapshotsRead client accepting.stream]) client { session with
      accepting := some { accepting with stage := .bursting left } } stream topic := by
  by_cases own : accepting.stream = stream
  · have unread : log.any (Record.isRead client stream) = false := by
      rw [Bool.eq_false_iff, ne_eq, tracked.stage accepting accepts own, stage]
      simp
    refine ⟨tracked.pattern, fun current isCurrent _ => ?_, tracked.followed.step rfl ?_⟩
    · obtain rfl := Option.some.inj isCurrent
      simp [Record.isRead, own]
    · have sinceNow : since client stream (log ++ [.snapshotsRead client accepting.stream]) =
          since client stream log := by
        rw [since_append _ fun _ => rfl, unread, since_of_unread unread]
        rfl
      have reads : subscriber s (log ++ [.snapshotsRead client accepting.stream]) client
          { session with accepting := some { accepting with stage := .bursting left } } stream =
          { subscriber s log client session stream with
            read := true, left := left.map Snapshot.message } := by
        simp only [subscriber, sinceNow]
        simp [leftOf, Accepting.left, own, Record.begun, Record.item, Record.event, Record.isRead,
          funnelled, pumped]
      rw [reads]
      exact .read unread (latest own)
  · refine Tracked.frame ?_ rfl rfl rfl rfl ?_
    · refine tracked.of_session rfl ?_ rfl ?_ rfl
      · intro current isCurrent isStream
        obtain rfl := Option.some.inj isCurrent
        exact absurd isStream own
      · simp [leftOf, accepts, own]
    · intro record mem
      rw [List.mem_singleton.mp mem]
      exact silent_of rfl fun isStream => absurd (Option.some.inj isStream) own

theorem Tracked.burst {accepting : Accepting} {snap : Snapshot} {left : List Snapshot}
    (tracked : Tracked config s log client session stream topic)
    (accepts : session.accepting = some accepting)
    (stage : accepting.stage = .bursting (snap :: left))
    (unpumped : accepting.stream ∉ session.pumps.map Pump.stream) :
    Tracked config s (log ++ if config.asRaw snap.data then
        [.value client accepting.stream snap.record (.snapshot accepting.subId (accepting.seq + 1)
          left.isEmpty snap.topic snap.ts snap.data)] else [])
      client { session with
        accepting := some { accepting with stage := .bursting left, seq := accepting.seq + 1 } }
      stream topic := by
  by_cases own : accepting.stream = stream
  · have read := (tracked.stage accepting accepts own).mpr ⟨_, stage⟩
    refine ⟨tracked.pattern, fun current isCurrent _ => ?_, tracked.followed.step rfl ?_⟩
    · obtain rfl := Option.some.inj isCurrent
      simp [List.any_append, read]
    · have live : pumped session stream = false := by
        rw [pumped, decide_eq_false_iff_not, ← own]
        exact unpumped
      have isLeft : (subscriber s log client session stream).left =
          snap.message :: left.map Snapshot.message := by
        simp [subscriber, leftOf, accepts, own, Accepting.left, stage]
      have shows : subscriber s (log ++ if config.asRaw snap.data then
          [.value client accepting.stream snap.record (.snapshot accepting.subId (accepting.seq + 1)
            left.isEmpty snap.topic snap.ts snap.data)] else [])
          client { session with
            accepting := some { accepting with stage := .bursting left, seq := accepting.seq + 1 } }
          stream =
          { subscriber s log client session stream with
            left := left.map Snapshot.message
            sent := (subscriber s log client session stream).sent ++
              if config.asRaw snap.message.payload then [snap.message] else [] } := by
        have payload : snap.message.payload = snap.data := rfl
        rw [payload]
        split
        · have sinceNow (frame : Outbound) : since client stream
              (log ++ [.value client accepting.stream snap.record frame]) =
                  since client stream log := by
            rw [since_append _ fun _ => rfl, read]
            exact List.append_nil _
          simp only [subscriber, sinceNow]
          simp [leftOf, Accepting.left, own, Record.begun, Record.item, Record.event, Record.isRead,
            carried, Snapshot.message, funnelled, pumped]
        · simp [subscriber, leftOf, Accepting.left, own, funnelled, pumped]
      rw [shows]
      exact .present live isLeft
  · refine Tracked.frame ?_ rfl rfl rfl rfl ?_
    · refine tracked.of_session rfl ?_ rfl ?_ rfl
      · intro current isCurrent isStream
        obtain rfl := Option.some.inj isCurrent
        exact absurd isStream own
      · simp [leftOf, accepts, own]
    · intro record mem
      split at mem
      · rw [List.mem_singleton.mp mem]
        exact silent_of rfl fun isStream => absurd (Option.some.inj isStream) own
      · cases mem

theorem Tracked.pump {accepting : Accepting}
    (tracked : Tracked config s log client session stream topic)
    (accepts : session.accepting = some accepting) (stage : accepting.stage = .bursting [])
    (pump : Pump)
    (same : pump.stream = accepting.stream) :
    Tracked config s (log ++ [.pumping client accepting.stream]) client { session with
      accepting := none, pumps := session.pumps ++ [pump] } stream topic := by
  have silent : ∀ record ∈ [Record.pumping client accepting.stream],
      Silent client stream record := by
    intro record mem
    rw [List.mem_singleton.mp mem]
    exact silent_of rfl fun isAsked => by cases isAsked
  have empty : leftOf session stream = [] := by
    simp [leftOf, accepts, Accepting.left, stage]
  by_cases own : accepting.stream = stream
  · have read := (tracked.stage accepting accepts own).mpr ⟨_, stage⟩
    refine Tracked.frame ?_ rfl rfl rfl rfl silent
    refine ⟨tracked.pattern, fun current isCurrent => (by cases isCurrent),
      tracked.followed.step rfl ?_⟩
    have joins : subscriber s log client { session with
        accepting := none, pumps := session.pumps ++ [pump] } stream =
        { subscriber s log client session stream with live := true } := by
      simp only [subscriber, empty]
      simp [leftOf, funnelled, pumped, same, own]
    rw [joins]
    exact .join read empty
  · refine Tracked.frame ?_ rfl rfl rfl rfl silent
    refine tracked.of_session rfl (fun current isCurrent => (by cases isCurrent)) rfl ?_ ?_
    · rw [empty]
      rfl
    · have different : ¬ stream = pump.stream := fun isPump => own (same.symm.trans isPump.symm)
      simp [pumped, different]

theorem Tracked.forward {event : SubEvent} {funnel : List SubEvent}
    (tracked : Tracked config s log client session stream topic) (idle : session.accepting = none)
    (queued : session.funnel = event :: funnel)
    (live : stream ∈ session.pumps.map Pump.stream) :
    Tracked config s (log ++ [.value client event.stream event.record
      (SubEvent.frame event)]) client
      { session with accepting := none, funnel } stream topic := by
  have notAccepting (accepting : Accepting) (isAccepting : none = some accepting) :
      accepting.stream = stream → (log.any (Record.isRead client stream) = true ↔
        ∃ left, accepting.stage = .bursting left) := by
    cases isAccepting
  by_cases own : event.stream = stream
  · refine ⟨tracked.pattern, fun _ isAccepting => (by cases isAccepting),
      tracked.followed.step rfl ?_⟩
    have isLive : (subscriber s log client session stream).live = true := decide_eq_true live
    have isNext : (subscriber s log client session stream).transit = event.message ::
        ((funnel.filter fun event => event.stream = stream).map SubEvent.message ++
          s.bus.queued stream ++ (s.current.map (·.held stream)).getD []) := by
      simp [subscriber, funnelled, queued, own]
    have sinceNow : since client stream (log ++ [.value client event.stream event.record
        (SubEvent.frame event)]) = since client stream log := by
      rw [since_append _ fun _ => rfl]
      split
      · exact List.append_nil _
      · rename_i unread
        exact (since_of_unread (by simpa using unread)).symm
    have sends : subscriber s (log ++
      [.value client event.stream event.record (SubEvent.frame event)])
        client { session with accepting := none, funnel } stream =
        { subscriber s log client session stream with
          transit := (funnel.filter fun event => event.stream = stream).map SubEvent.message ++
            s.bus.queued stream ++ (s.current.map (·.held stream)).getD []
          sent := (subscriber s log client session stream).sent ++ [event.message]
          events := (subscriber s log client session stream).events ++ [event.message] } := by
      simp only [subscriber, sinceNow]
      simp [leftOf, idle, own, Record.begun, Record.item, Record.event, Record.isRead, carried,
        SubEvent.frame, SubEvent.message, funnelled, pumped]
    rw [sends]
    exact .forward isLive isNext
  · refine Tracked.frame ?_ rfl rfl rfl rfl ?_
    · refine tracked.of_session rfl notAccepting ?_ ?_ rfl
      · simp [funnelled, queued, own]
      · simp [leftOf, idle]
    · intro record mem
      rw [List.mem_singleton.mp mem]
      exact silent_of rfl fun isStream => absurd (Option.some.inj isStream) own

theorem Tracked.pull {index yielded : ℕ} {pump : Pump} {bus : ClientManager} {item : Queued}
    (tracked : Tracked config s log client session stream topic) (idle : session.accepting = none)
    (isPump : session.pumps[index]? = some pump)
    (polled : s.bus.poll pump.stream = some (bus, [.yielded yielded item]))
    (moved : Pump) (same : moved.stream = pump.stream)
    (room : pump.stream = stream → session.funnel.length < eventBuffer) :
    Tracked config { s with bus } log client { session with
      accepting := none
      pumps := session.pumps.set index moved
      funnel := if session.funnel.length < eventBuffer then
        session.funnel ++ [eventOf pump item] else session.funnel } stream topic := by
  obtain ⟨current, rest, opened, _, isQueue, rfl⟩ := ClientManager.poll_spec polled
  refine ⟨tracked.pattern, fun _ isAccepting => (by cases isAccepting), ?_⟩
  have pumps := map_set_of_getElem? isPump same
  have transit : funnelled { session with
      accepting := none
      pumps := session.pumps.set index moved
      funnel := if session.funnel.length < eventBuffer then
        session.funnel ++ [eventOf pump item] else session.funnel } stream ++
        (s.bus.setStream pump.stream { current with queue := rest }).queued stream =
      funnelled session stream ++ s.bus.queued stream := by
    by_cases own : pump.stream = stream
    · subst own
      rw [funnelled, if_pos (room rfl), ClientManager.queued_setStream_self,
        ClientManager.queued_of_stream opened, isQueue]
      simp [funnelled, eventOf, SubEvent.message, Queued.message]
    · rw [ClientManager.queued_setStream_of_ne fun isPump => own isPump.symm]
      congr 1
      rw [funnelled, funnelled]
      dsimp only
      split
      · simp [eventOf, own]
      · rfl
  have pulls : subscriber { s with
    bus := s.bus.setStream pump.stream { current with queue := rest } }
      log client { session with
        accepting := none
        pumps := session.pumps.set index moved
        funnel := if session.funnel.length < eventBuffer then
          session.funnel ++ [eventOf pump item] else session.funnel } stream =
      subscriber s log client session stream := by
    simp only [subscriber, transit, pumped, pumps]
    simp only [leftOf, idle]
    rfl
  rw [Followed, pulls]
  exact tracked.followed

/-- A new stream has missed what was broadcast, and nothing has come to it or was said of it. -/
theorem Joined.accept (joined : Joined config stream s log)
    (found : s.sessions client = some session) (isNew : stream = s.bus.nextSub)
    (subId topic : String) :
    Tracked config { s with bus := (s.bus.subscribe topic session.recordPerms).1 } log client
      { session with accepting := some { subId, topic, stream := s.bus.nextSub } }
      stream topic := by
  have unheard (record : Record) (mem : record ∈ log) : record.isRead client stream = false ∧
      record.item client stream = none ∧ record.event client stream = none := by
    refine unheard_of fun isStream => ?_
    exact absurd (joined.owned.log record mem stream isStream) (isNew ▸ Nat.lt_irrefl _)
  have unread : log.any (Record.isRead client stream) = false := by
    rw [List.any_eq_false]
    exact fun record mem => by simp [(unheard record mem).1]
  have unowned : stream ∉ WsSession.streams session := fun held =>
    absurd (joined.owned.lt_nextSub joined.base.sound found held) (isNew ▸ Nat.lt_irrefl _)
  refine ⟨fun entry isEntry => ?_, fun accepting isAccepting _ => ?_, ?_⟩
  · obtain rfl : { pattern := topic, recordPerms := session.recordPerms } = entry := by
      simpa [ClientManager.subscribe, isNew] using isEntry
    rfl
  · obtain rfl := Option.some.inj isAccepting
    simp [unread]
  · have funnel : funnelled session stream = [] := by
      rw [funnelled, List.map_eq_nil_iff, List.filter_eq_nil_iff]
      intro event mem isStream
      have known := joined.owned.funnel client session found event mem
      rw [of_decide_eq_true isStream, isNew] at known
      exact Nat.lt_irrefl _ known
    have queued : (s.bus.subscribe topic session.recordPerms).1.queued stream = [] := by
      simp [ClientManager.queued, ClientManager.subscribe, isNew]
    have held (call : Broadcast) (under : s.current = some call) : call.held stream = [] := by
      refine ClientManager.held_of_hand fun carried carries => ?_
      unfold current at under
      split at under
      · obtain ⟨entry, registered⟩ := Option.isSome_iff_exists.mp
          (joined.base.sound.locked _ call under stream (by rw [carries]; rfl))
        obtain ⟨on, opened, _⟩ := joined.base.sound.guarded stream entry registered
        rw [joined.base.sound.fresh stream (Nat.le_of_eq isNew.symm)] at opened
        cases opened
      · cases under
      · cases under
    have missed : ∃ missed, log.filterMap Record.begun =
        missed ++ (s.current.bind (·.offered stream)).toList := by
      cases under : s.current with
      | none => exact ⟨_, (List.append_nil _).symm⟩
      | some call =>
          rw [Option.bind_some, Broadcast.offered]
          split
          · obtain ⟨b, isLoop⟩ : ∃ b, s.loop = .broadcasting b := by
              by_contra idle
              rw [current_of_not_broadcasting (not_exists.mp idle)] at under
              cases under
            obtain ⟨state, rest, isState, begun⟩ := joined.books.under b isLoop
            rw [current_eq isLoop, isState] at under
            obtain rfl := Option.some.inj under
            exact ⟨rest, begun⟩
          · exact ⟨_, (List.append_nil _).symm⟩
    obtain ⟨missed, begun⟩ := missed
    refine ⟨missed, [], [], Feed.follows_initial begun ?_ unread ?_ ?_ ?_ ?_ ?_ ?_⟩
    · have inHand : (s.current.map (·.held stream)).getD [] = [] := by
        cases under : s.current with
        | none => rfl
        | some call => exact held call under
      exact List.append_eq_nil_iff.mpr ⟨List.append_eq_nil_iff.mpr ⟨funnel, queued⟩, inHand⟩
    · simp [subscriber, leftOf, Accepting.left]
    · have notPumped : stream ∉ session.pumps.map Pump.stream := fun isPump =>
        unowned (List.mem_append_right _ isPump)
      exact decide_eq_false notPumped
    · exact List.filterMap_eq_nil_iff.mpr fun record mem => (unheard record mem).2.1
    · exact List.filterMap_eq_nil_iff.mpr fun record mem => (unheard record mem).2.2
    · exact since_of_unread unread
    · intro early
      simp only [subscriber] at early ⊢
      unfold current at early
      cases isLoop : s.loop with
      | broadcasting b => rfl
      | _ => simp [isLoop] at early

theorem Joined.unfilled_step (joined : Joined config stream s log) (clear : Clear stream s input)
    (stepped : Step config s input after emitted) (b : ℕ) (call : Broadcast) (amount : ℕ)
    (found : after.bus.broadcasts b = some call) : call.hand ≠ .restoring stream amount := by
  have kept (same : after.bus.broadcasts = s.bus.broadcasts) : call.hand ≠
      .restoring stream amount :=
    joined.unfilled b call amount (same ▸ found)
  cases stepped with
  | @began message holds =>
      by_cases new : b = s.bus.begun
      · obtain rfl : { message, limit := s.bus.nextSub } = call := by
          simpa [ClientManager.begin, new] using found
        simp
      · exact joined.unfilled b call amount (by simpa [ClientManager.begin, new] using found)
  | moved inner moved =>
      intro restores
      rcases (inner_spec inner moved).filled b call stream amount found restores with
        ⟨before, was, already⟩ | ⟨rfl, before, on, was, carries, opened, full⟩
      · exact joined.unfilled b before amount was already
      · exact absurd (clear before was carries on opened) (Nat.not_lt_of_le full)
  | disconnected _ => exact kept (dropped_dropStreams ..).broadcasts
  | unsubscribed _ _ _ _ => exact kept (dropped_dropStream ..).broadcasts
  | pulled _ _ _ polled =>
      obtain ⟨_, _, _, _, _, rfl⟩ := ClientManager.poll_spec polled
      exact kept rfl
  | _ => exact kept rfl

theorem Joined.connect (joined : Joined config stream s log) (permissions : Permissions)
    (isSession : (s.connect config permissions).1.sessions client = some session)
    (subscribed : (stream, topic) ∈ subscriptions session) :
    Tracked config (s.connect config permissions).1
      (log ++ (s.connect config permissions).2) client session stream topic := by
  by_cases same : client = s.nextClient
  · subst same
    obtain rfl : ⟨permissions, .resolvePermissions config.records permissions, none, [], []⟩ =
      session := by simpa [Server.connect, Server.setSession] using isSession
    cases subscribed
  · have was : s.sessions client = some session := by
      simpa [Server.connect, Server.setSession, same] using isSession
    refine (joined.tracked client session topic was subscribed).frame rfl rfl rfl rfl ?_
    intro record mem
    rw [List.mem_singleton.mp mem]
    exact silent_of rfl fun isAsked => by cases isAsked

theorem Joined.accepted (joined : Joined config stream s log)
    (found : s.sessions client = some session) (idle : session.accepting = none)
    (subId pattern : String)
    (subscribed : (stream, topic) ∈ subscriptions { session with
      accepting := some { subId, topic := pattern, stream := s.bus.nextSub } }) :
    Tracked config { s.setSession client (some { session with
        accepting := some { subId, topic := pattern, stream := s.bus.nextSub } }) with
      bus := (s.bus.subscribe pattern session.recordPerms).1 }
      (log ++ [.accepted client s.bus.nextSub pattern]) client { session with
        accepting := some { subId, topic := pattern, stream := s.bus.nextSub } } stream topic := by
  have silent : ∀ record ∈ [Record.accepted client s.bus.nextSub pattern],
      Silent client stream record := by
    intro record mem
    rw [List.mem_singleton.mp mem]
    exact silent_of rfl fun isAsked => by cases isAsked
  rcases List.mem_append.mp subscribed with new | old
  · obtain ⟨isNew, rfl⟩ := Prod.mk.inj (List.mem_singleton.mp new)
    exact (joined.accept found isNew subId topic).frame rfl rfl rfl rfl silent
  · have before : (stream, topic) ∈ subscriptions session := List.mem_append_right _ old
    have earlier : stream ≠ s.bus.nextSub :=
      Nat.ne_of_lt (joined.owned.lt_nextSub joined.base.sound found (mem_streams before))
    have moved : Tracked config s log client { session with
        accepting := some { subId, topic := pattern, stream := s.bus.nextSub } } stream topic := by
      refine (joined.tracked client session topic found before).of_session rfl ?_ rfl ?_ rfl
      · intro accepting isAccepting isStream
        obtain rfl := Option.some.inj isAccepting
        exact absurd isStream.symm earlier
      · simp [leftOf, idle, earlier.symm]
    refine moved.frame rfl rfl ?_ ?_ silent
    · simp [ClientManager.subscribe, earlier]
    · simp [ClientManager.subscribe, earlier]

theorem Joined.unsubscribe (joined : Joined config stream s log) {pump : Pump}
    (found : s.sessions client = some session) (idle : session.accepting = none)
    (isPump : pump ∈ session.pumps)
    (subscribed : (stream, topic) ∈
      subscriptions { session with pumps := session.pumps.erase pump }) :
    Tracked config ((s.setSession client
        (some { session with pumps := session.pumps.erase pump })).dropStream pump.stream) log
          client
      { session with pumps := session.pumps.erase pump } stream topic := by
  have isLeft : ∃ other ∈ session.pumps.erase pump,
      (other.stream, other.topic) = (stream, topic) := by
    simpa [subscriptions, idle] using subscribed
  obtain ⟨other, mem, isOther⟩ := isLeft
  obtain ⟨rfl, rfl⟩ := Prod.mk.inj isOther
  have before : (other.stream, other.topic) ∈ subscriptions session :=
    List.mem_append_right _ (List.mem_map.mpr ⟨other, List.mem_of_mem_erase mem, rfl⟩)
  have split : (session.pumps.map Pump.stream).Perm
      (pump.stream :: (session.pumps.erase pump).map Pump.stream) :=
    (List.perm_cons_erase isPump).map _
  have streams : WsSession.streams session = session.pumps.map Pump.stream := by
    simp [WsSession.streams, idle]
  have nodup := split.nodup_iff.mp (streams ▸ joined.owned.nodup client session found)
  have different : other.stream ∉ [pump.stream] := fun same =>
    (List.nodup_cons.mp nodup).1 (List.mem_singleton.mp same ▸ List.mem_map_of_mem mem)
  have dropped := dropped_dropStream (s.setSession client
    (some { session with pumps := session.pumps.erase pump })) pump.stream
  rw [← List.append_nil log]
  refine Tracked.frame ?_ dropped.loop dropped.broadcasts (dropped.others _ different)
    (congrFun dropped.subs _) (by simp)
  refine Tracked.setSession ?_ _ _
  refine (joined.tracked client session _ found before).of_session rfl ?_ rfl rfl ?_
  · exact fun accepting isAccepting => absurd (idle.symm.trans isAccepting) (by simp)
  · have now : other.stream ∈ (session.pumps.erase pump).map Pump.stream :=
      List.mem_map_of_mem mem
    have was : other.stream ∈ session.pumps.map Pump.stream :=
      List.mem_map_of_mem (List.mem_of_mem_erase mem)
    exact (decide_eq_true now).trans (decide_eq_true was).symm

theorem Joined.tracked_step (joined : Joined config stream s log)
    (lateJoin : config.lateJoin = true)
    (clear : Clear stream s input) (stepped : Step config s input after emitted) (client : ℕ)
    (session : WsSession) (topic : String) (isSession : after.sessions client = some session)
    (subscribed : (stream, topic) ∈ subscriptions session) :
    Tracked config after (log ++ emitted) client session stream topic := by
  have unfilled := joined.unfilled_step clear stepped
  cases stepped with
  | connected permissions => exact joined.connect permissions isSession subscribed
  | @disconnected asked before found =>
      have dropped := dropped_dropStreams (s.setSession asked none) (WsSession.streams before)
      exact joined.of_session found none dropped.sessions dropped.loop dropped.broadcasts
        (fun notOwn _ => ⟨dropped.others stream notOwn, congrFun dropped.subs stream⟩) (by simp)
        (fun _ _ isNow => (by cases isNow)) client session topic isSession subscribed
  | taken waits => exact joined.take waits _ isSession subscribed
  | began holds => exact joined.begin holds isSession subscribed
  | moved inner moved =>
      rw [List.append_nil]
      exact joined.moveBus inner moved unfilled isSession subscribed
  | refused _ _ _ | ignored _ _ | listed _ _ | failed _ _ _ | queried _ _ _ =>
      exact joined.answer (by simp [Record.begun, Record.stream]) client session topic isSession
        subscribed
  | @accepted asked before subId pattern found idle _ =>
      refine joined.of_session found
        (some { before with
          accepting := some { subId, topic := pattern, stream := s.bus.nextSub } })
        ?_ ?_ ?_ ?_ ?_ ?_ client session topic isSession subscribed
      · rfl
      · rfl
      · rfl
      · intro _ early
        have earlier : stream ≠ s.bus.nextSub := Nat.ne_of_lt early
        simp [ClientManager.subscribe, earlier]
      · simp [Record.begun, Record.client]
      · intro now topic same subscribed
        obtain rfl := Option.some.inj same
        exact joined.accepted found idle subId pattern subscribed
  | @acknowledged asked before accepting found accepts stage =>
      refine joined.of_setSession found _ ?_
        (fun topic subscribed => ?_) client session topic isSession
        subscribed
      · simp [Record.begun, Record.client]
      · have was : (stream, topic) ∈ subscriptions before := by
          simpa [subscriptions, accepts] using subscribed
        exact (joined.tracked asked before topic found was).acknowledge accepts stage
  | @read asked before accepting keys found accepts stage all =>
      refine joined.of_setSession found _ ?_
        (fun topic subscribed => ?_) client session topic isSession
        subscribed
      · simp [Record.begun, Record.client]
      · have was : (stream, topic) ∈ subscriptions before := by
          simpa [subscriptions, accepts] using subscribed
        refine (joined.tracked asked before topic found was).read accepts stage fun own => ?_
        have nodup := joined.owned.nodup asked before found
        rw [WsSession.streams, accepts] at nodup
        have isTopic : topic = accepting.topic := by
          rw [subscriptions, accepts] at was
          rcases List.mem_cons.mp was with same | pumped
          · exact (Prod.mk.inj same).2
          · obtain ⟨pump, mem, isPump⟩ := List.mem_map.mp pumped
            have isStream : pump.stream = accepting.stream := (Prod.mk.inj isPump).1.trans own.symm
            exact absurd (isStream ▸ List.mem_map_of_mem mem) (List.nodup_cons.mp nodup).1
        rw [isTopic]
        exact joined.books.latest lateJoin before accepting.topic all
  | @burst asked before accepting snap left found accepts stage =>
      refine joined.of_setSession found _ ?_
        (fun topic subscribed => ?_) client session topic isSession
        subscribed
      · intro record mem
        split at mem
        · rw [List.mem_singleton.mp mem]
          exact ⟨rfl, rfl⟩
        · cases mem
      · have was : (stream, topic) ∈ subscriptions before := by
          simpa [subscriptions, accepts] using subscribed
        have nodup := joined.owned.nodup asked before found
        rw [WsSession.streams, accepts] at nodup
        exact (joined.tracked asked before topic found was).burst accepts stage
          (List.nodup_cons.mp nodup).1
  | @pumped asked before accepting found accepts stage =>
      refine joined.of_setSession found _ ?_
        (fun topic subscribed => ?_) client session topic isSession
        subscribed
      · simp [Record.begun, Record.client]
      · have was : (stream, topic) ∈ subscriptions before := by
          simpa [subscriptions, accepts, or_comm] using subscribed
        exact (joined.tracked asked before topic found was).pump accepts stage _ rfl
  | @unsubscribed asked before pump subId found idle isPump =>
      have dropped := dropped_dropStream (s.setSession asked
        (some { before with pumps := before.pumps.erase pump })) pump.stream
      have owned : pump.stream ∈ WsSession.streams before :=
        List.mem_append_right _ (List.mem_map_of_mem isPump)
      refine joined.of_session found _ dropped.sessions dropped.loop dropped.broadcasts
        (fun notOwn _ => ⟨dropped.others stream ?_, congrFun dropped.subs stream⟩) (by simp)
        (fun now topic same subscribed => ?_) client session topic isSession subscribed
      · exact fun same => notOwn (List.mem_singleton.mp same ▸ owned)
      · obtain rfl := Option.some.inj same
        rw [List.append_nil]
        exact joined.unsubscribe found idle isPump subscribed
  | @pulled asked index before pump bus yielded item found idle isPump polled =>
      have owned : pump.stream ∈ WsSession.streams before :=
        List.mem_append_right _ (List.mem_map_of_mem (List.mem_of_getElem? isPump))
      obtain ⟨current, rest, opened, _, _, isBus⟩ := ClientManager.poll_spec polled
      refine joined.of_session found (some { before with
          accepting := none
          pumps := before.pumps.set index
            { pump with seq := pump.seq + (UInt64.ofNat item.update.skipped + 1) }
          funnel := if before.funnel.length < eventBuffer then
            before.funnel ++ [eventOf pump item] else before.funnel }) ?_ ?_ ?_ ?_ ?_ ?_
        client session topic isSession subscribed
      · rfl
      · rfl
      · exact isBus ▸ rfl
      · intro notOwn _
        have other : stream ≠ pump.stream := fun same => notOwn (same ▸ owned)
        simp [isBus, other]
      · simp
      · intro now topic same subscribed
        obtain rfl := Option.some.inj same
        have was : (stream, topic) ∈ subscriptions before := by
          have same : (before.pumps.set index
              { pump with seq := pump.seq + (UInt64.ofNat item.update.skipped + 1) }).map
                (fun pump => (pump.stream, pump.topic)) =
              before.pumps.map fun pump => (pump.stream, pump.topic) :=
                map_set_of_getElem? isPump rfl
          rw [subscriptions] at subscribed
          dsimp only at subscribed
          rw [same] at subscribed
          rwa [subscriptions, idle]
        rw [List.append_nil]
        have pulled := (joined.tracked asked before topic found was).pull idle isPump polled
          { pump with seq := pump.seq + (UInt64.ofNat item.update.skipped + 1) } rfl
          (clear before found pump isPump)
        exact pulled.setSession asked _
  | @forwarded asked before event funnel found idle queued =>
      refine joined.of_setSession found _ ?_
        (fun topic subscribed => ?_) client session topic isSession
        subscribed
      · simp [Record.begun, Record.client]
      · have was : (stream, topic) ∈ subscriptions before := by
          simpa [subscriptions, idle] using subscribed
        have live := mem_streams was
        rw [WsSession.streams, idle] at live
        exact (joined.tracked asked before topic found was).forward idle queued live

theorem Joined.step (joined : Joined config stream s log) (lateJoin : config.lateJoin = true)
    (clear : Clear stream s input) (stepped : Step config s input after emitted) :
    Joined config stream after (log ++ emitted) where
  base := joined.base.step stepped
  books := joined.books.step stepped
  owned := joined.owned.step joined.base.sound stepped
  unfilled := joined.unfilled_step clear stepped
  tracked := joined.tracked_step lateJoin clear stepped

theorem joined_of_reaches (lateJoin : config.lateJoin = true)
    (reached : Reaches (step config) (Clear stream) (new config) s log) :
    Joined config stream s log := by
  refine reached.invariant (Joined config stream) ?_ ?_
  · exact ⟨invariant_new config, books_new config, owned_new config,
      by simp [new, ClientManager.new], by simp [new]⟩
  · intro s log input after emitted _ clear stepped joined
    exact joined.step lateJoin clear (.of_step stepped)

/-- Nothing is on its way to a subscription any more. -/
structure Drained (s : Server) (session : WsSession) (stream : ℕ) : Prop where
  loop : s.loop = .waiting
  queue : s.bus.queued stream = []
  funnel : funnelled session stream = []

/-- A subscription whose pump has drained has caught up with every record and topic it is for.
A snapshot that is not JSON is skipped, so the last value that was not sent as an event has
to be JSON. -/
theorem late_join (lateJoin : config.lateJoin = true) {pump : Pump}
    (run : Reaches (step config) (Clear pump.stream) (new config) s log)
    (found : s.sessions client = some session) (isPump : pump ∈ session.pumps)
    (drained : Drained s session pump.stream) {record : ℕ} {key : String}
    (isKey : config.records[record]? = some key)
    (permitted : session.permissions.canRead key = true)
    (aligned : topicMatches pump.topic topic = true) :
    let values := ofKey Message.key (record, topic) (log.filterMap Record.begun)
    let events :=
      ofKey Message.key (record, topic) (log.filterMap (Record.event client pump.stream))
    events <:+ values ∧
    ofKey Message.key (record, topic) (since client pump.stream log) <:+ events ∧
    ∀ message, values.getLast? = some message → config.asRaw message.payload = true →
      (ofKey Message.key (record, topic)
        (log.filterMap (Record.item client pump.stream))).getLast? = some message := by
  have joined := joined_of_reaches lateJoin run
  have subscribed : (pump.stream, pump.topic) ∈ subscriptions session :=
    List.mem_append_right _ (List.mem_map_of_mem isPump)
  obtain ⟨missed, heard, shown, follows⟩ :=
    (joined.tracked client session pump.topic found subscribed).followed
  have idle : s.current = none := current_of_not_broadcasting (by simp [drained.loop])
  have accepted : accepts session pump.topic (record, topic) = true := by
    rw [accepts, aligned, (joined.base.sessions client session found).1.perms, Bool.true_and,
      RecordsBits.isAllowed_resolvePermissions]
    exact ⟨key, isKey, permitted⟩
  have live : pumped session pump.stream = true := decide_eq_true (List.mem_map_of_mem isPump)
  obtain ⟨consecutive, complete, last⟩ := follows.caughtUp (by simp [subscriber, idle])
    (by simp [subscriber, ahead, drained.loop])
    (by simp [subscriber, drained.queue, drained.funnel, idle]) live accepted
  exact ⟨consecutive, complete, last⟩

def oneRecord : Config := { records := ["a"], asRaw := fun payload => payload ≠ [255] }

def readsOne : Permissions := { readPatterns := ["a"] }

theorem canRead_readsOne : readsOne.canRead "a" = true := by
  rw [Permissions.canRead, List.any_eq_true]
  refine ⟨"a", List.mem_singleton.mpr rfl, ?_⟩
  rw [patternContains_exact.2 _ _ (by decide)]
  decide

def joining : Server :=
  { (new oneRecord).setSession 1
    (some { permissions := readsOne, recordPerms := ⟨1, [1]⟩ }) with
    nextClient := 2 }

theorem reaches_joining (stream : ℕ) :
    Reaches (step oneRecord) (Clear stream) (new oneRecord) joining [.connected 1 readsOne] := by
  have resolved : RecordsBits.resolvePermissions oneRecord.records readsOne = ⟨1, [1]⟩ := by
    simp only [RecordsBits.resolvePermissions, oneRecord, List.zipIdx_cons, List.zipIdx_nil,
      List.foldl_cons, List.foldl_nil, canRead_readsOne]
    decide
  have connects : step oneRecord (new oneRecord) (.connect readsOne) =
      some (joining, [.connected 1 readsOne]) := by
    rw [step, connect, resolved]
    rfl
  have clear : Clear stream (new oneRecord) (.connect readsOne) := trivial
  exact .next .start clear connects

/-- A value is cached while the client is being accepted: it reads it and hears it. -/
def overtaken : List Input :=
  [.next ⟨"t", 0, [49], 1⟩, .broadcast, .bus (.endIteration 0), .bus (.finish 0),
    .subscribe 1 "s" "#", .acknowledge 1, .next ⟨"t", 0, [50], 2⟩, .snapshots 1 [(0, "t")],
    .broadcast, .bus (.visit 1 1), .bus (.trySend 1), .bus (.endIteration 1), .bus (.finish 1),
    .snapshot 1, .pump 1, .pull 1 0, .forward 1]

/-- A value that is not JSON is cached before the client subscribes. -/
def unshown : List Input :=
  [.next ⟨"t", 0, [255], 1⟩, .broadcast, .bus (.endIteration 0), .bus (.finish 0),
    .subscribe 1 "s" "#", .acknowledge 1, .snapshots 1 [(0, "t")], .snapshot 1, .pump 1]

def Ends (pump : Pump) (run : Server × List Record) : Prop :=
  run.1.loop = .waiting ∧ run.1.bus.queued pump.stream = [] ∧
    run.1.sessions 1 = some
      { permissions := readsOne, recordPerms := ⟨1, [1]⟩, pumps := [pump] }

instance (pump : Pump) : DecidablePred (Ends pump) := fun run =>
  inferInstanceAs (Decidable (run.1.loop = .waiting ∧ run.1.bus.queued pump.stream = [] ∧
    run.1.sessions 1 = some
      { permissions := readsOne, recordPerms := ⟨1, [1]⟩, pumps := [pump] }))

theorem late_join_overtaken : ∃ log : List Record,
    log.filterMap Record.begun = [⟨"t", 0, [49], 1⟩, ⟨"t", 0, [50], 2⟩] ∧
    (ofKey Message.key (0, "t") (log.filterMap (Record.item 1 1))).getLast? =
      some ⟨"t", 0, [50], 2⟩ := by
  have ran : (replay (step oneRecord) joining overtaken).any
    (fun run => Ends ⟨"s", "#", 1, 2⟩ run ∧
      run.2.filterMap Record.begun = [⟨"t", 0, [49], 1⟩, ⟨"t", 0, [50], 2⟩]) = true := by
    decide
  obtain ⟨⟨s, log⟩, run, ends⟩ := (Option.any_eq_true ..).mp ran
  obtain ⟨⟨waits, queue, found⟩, begun⟩ := of_decide_eq_true ends
  have permits : Permits (step oneRecord) (Clear 1) joining overtaken := by decide
  have all : ([Record.connected 1 readsOne] ++ log).filterMap Record.begun =
      [⟨"t", 0, [49], 1⟩, ⟨"t", 0, [50], 2⟩] := begun
  refine ⟨_, all, ?_⟩
  exact (late_join rfl ((reaches_joining 1).replay permits run) found List.mem_cons_self
    ⟨waits, queue, rfl⟩ rfl canRead_readsOne (by decide)).2.2 _ (by rw [all]; decide) rfl

/-- Without the condition the client is left without a value. -/
theorem late_join_unshown : ¬ ∀ (config : Config) (s : Server) (log : List Record) (client : ℕ)
    (session : WsSession) (pump : Pump) (record : ℕ) (key topic : String),
    config.lateJoin = true → Reaches (step config) (Clear pump.stream) (new config) s log →
    s.sessions client = some session → pump ∈ session.pumps →
    Drained s session pump.stream →
    config.records[record]? = some key → session.permissions.canRead key = true →
    topicMatches pump.topic topic = true →
    ∀ message, (ofKey Message.key (record, topic) (log.filterMap Record.begun)).getLast? =
      some message →
      (ofKey Message.key (record, topic)
        (log.filterMap (Record.item client pump.stream))).getLast? = some message := by
  intro catchesUp
  have ran : (replay (step oneRecord) joining unshown).any
    (fun run => Ends ⟨"s", "#", 1, 1⟩ run ∧
      run.2.filterMap Record.begun = [⟨"t", 0, [255], 1⟩] ∧
      run.2.filterMap (Record.item 1 1) = []) = true := by
    decide +kernel
  obtain ⟨⟨s, log⟩, run, ends⟩ := (Option.any_eq_true ..).mp ran
  obtain ⟨⟨waits, queue, found⟩, begun, sent⟩ := of_decide_eq_true ends
  have permits : Permits (step oneRecord) (Clear 1) joining unshown := by decide
  have all : ([Record.connected 1 readsOne] ++ log).filterMap Record.begun =
      [⟨"t", 0, [255], 1⟩] := begun
  have none : ([Record.connected 1 readsOne] ++ log).filterMap (Record.item 1 1) = [] := sent
  have last := catchesUp oneRecord s _ 1 _ ⟨"s", "#", 1, 1⟩ 0 "a" "t" rfl
    ((reaches_joining 1).replay permits run) found List.mem_cons_self ⟨waits, queue, rfl⟩ rfl
    canRead_readsOne (by decide) ⟨"t", 0, [255], 1⟩ (by rw [all]; decide)
  rw [none] at last
  cases last

end AimDb.WebSocket.Server
