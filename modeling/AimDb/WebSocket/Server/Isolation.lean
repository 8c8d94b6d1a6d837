import AimDb.WebSocket.Server.Steps
import AimDb.WebSocket.ClientManager.Flow
import AimDb.Transition.Runs

/-!
# What a client is sent is covered by its grants

Streams, funnels and bursts of a client carry values of allowed records only, and every
value was taken from the outbound routes.
-/

namespace AimDb.WebSocket

open Session (Payload Stamp Outbound RpcError)
open Transition

namespace ClientManager

variable {s after : ClientManager} {emitted : List Record} {perms : RecordsBits} {sub : ℕ}

structure Permitted (s : ClientManager) (perms : RecordsBits) (sub : ℕ) : Prop where
  known : sub < s.nextSub
  entry : ∀ entry, s.subs sub = some entry → entry.recordPerms = perms
  queue : ∀ stream, s.streams sub = some stream → ∀ item ∈ stream.queue,
    perms.isAllowed item.record = true
  hand : ∀ b call carried, s.broadcasts b = some call → call.hand = .carrying sub carried →
    perms.isAllowed call.message.recordIndex = true

theorem Step.nextSub_le (stepped : Step s after emitted) : s.nextSub ≤ after.nextSub := by
  cases stepped with
  | subscribed pattern recordPerms => exact Nat.le_succ _
  | _ => exact Nat.le_refl _

theorem Permitted.step (permitted : s.Permitted perms sub) (stepped : Step s after emitted) :
    after.Permitted perms sub where
  known := Nat.lt_of_lt_of_le permitted.known stepped.nextSub_le
  entry := by
    intro entry found
    rcases stepped.entry_cases found with ⟨before, was, _, same⟩ | ⟨new, _⟩
    · exact same ▸ permitted.entry before was
    · exact absurd new (Nat.ne_of_lt permitted.known)
  queue := by
    intro stream opened item queued
    rcases stepped.queue_cases opened queued with
      ⟨before, was, earlier⟩ | ⟨b, call, carried, found, holds, same⟩
    · exact permitted.queue before was item earlier
    · have carriedOne := permitted.hand b call carried found holds
      rw [← same] at carriedOne
      exact carriedOne
  hand := by
    intro b call carried found holds
    rcases stepped.call_cases found with ⟨before, was, same, hands⟩ | ⟨_, empty, _⟩
    · rcases hands sub carried holds with earlier | ⟨entry, registered, accepted⟩
      · exact same ▸ permitted.hand b before carried was earlier
      · rw [SubEntry.accepts, Bool.and_eq_true, permitted.entry entry registered] at accepted
        exact accepted.2
    · rw [empty] at holds
      cases holds

theorem Sound.permitted_subscribe (sound : s.Sound) (pattern : String) :
    (s.subscribe pattern perms).1.Permitted perms s.nextSub where
  known := Nat.lt_succ_self _
  entry := by
    intro entry found
    obtain rfl : { pattern, recordPerms := perms } = entry := by
      simpa [ClientManager.subscribe] using found
    rfl
  queue := by
    intro stream opened item queued
    obtain rfl : {} = stream := by simpa [ClientManager.subscribe] using opened
    cases queued
  hand := by
    intro b call carried found holds
    obtain ⟨entry, registered⟩ := Option.isSome_iff_exists.mp
      (sound.locked b call found s.nextSub (by rw [holds]; rfl))
    obtain ⟨stream, opened, _⟩ := sound.guarded _ entry registered
    rw [sound.fresh _ (Nat.le_refl _)] at opened
    cases opened

/-- Everything on the bus stems from messages of a kind. -/
structure Sourced (s : ClientManager) (source : Message → Prop) : Prop where
  calls : ∀ b call, s.broadcasts b = some call → source call.message
  queues : ∀ sub stream, s.streams sub = some stream →
    ∀ item ∈ stream.queue, source item.message

theorem Sourced.step {source : Message → Prop} (sourced : s.Sourced source)
    (stepped : Step s after emitted)
    (begins : ∀ message, after = (s.begin message).1 → source message) :
    after.Sourced source where
  calls := by
    intro b call found
    rcases stepped.call_cases found with ⟨before, was, same, _⟩ | ⟨_, _, began⟩
    · exact same ▸ sourced.calls b before was
    · exact begins _ began
  queues := by
    intro sub stream opened item queued
    rcases stepped.queue_cases opened queued with
      ⟨before, was, earlier⟩ | ⟨b, call, _, found, _, same⟩
    · exact sourced.queues sub before was item earlier
    · exact same ▸ sourced.calls b call found

theorem begun_of_step {input : Input} (stepped : s.step input = some (after, emitted))
    (other : ∀ message, input ≠ .broadcast message) : after.begun = s.begun := by
  cases input with
  | subscribe pattern recordPerms =>
      cases stepped
      rfl
  | broadcast message => exact absurd rfl (other message)
  | _ =>
      simp only [step, visit, trySend, restore, endIteration, prune, finish, poll, drop,
        dropReceiver, dropGuard] at stepped
      repeat' split at stepped
      all_goals cases stepped
      all_goals rfl

theorem poll_spec {stream : ℕ} {item : Queued}
    (polled : s.poll sub = some (after, [.yielded stream item])) :
    ∃ current rest, s.streams sub = some current ∧ current.dropping = false ∧
      current.queue = item :: rest ∧ after = s.setStream sub { current with queue := rest } := by
  unfold poll at polled
  cases opened : s.streams sub with
  | none => simp [opened] at polled
  | some current =>
      cases queued : current.queue with
      | nil => simp [opened, queued] at polled
      | cons first rest =>
          simp only [opened, queued] at polled
          split_ifs at polled with leaving
          cases polled
          exact ⟨current, rest, rfl, by simpa using leaving, queued, rfl⟩

end ClientManager

def Snapshot.message (snap : Snapshot) : Message :=
  ⟨snap.topic, snap.record, snap.data, snap.ts⟩

def SubEvent.message (event : SubEvent) : Message :=
  ⟨event.topic, event.record, event.data, event.ts⟩

def Accepting.left (accepting : Accepting) : List Snapshot :=
  match accepting.stage with
  | .bursting left => left
  | .registered | .acknowledged => []

def carried : Outbound → Option (String × Payload × Stamp)
  | .event _ _ (some topic) ts data => some (topic, data, ts)
  | .snapshot _ _ _ topic ts data => some (topic, data, ts)
  | _ => none

namespace Server

variable {config : Config} {s after : Server} {input : Input} {log emitted : List Record}

/-- A message the loop took from the outbound routes. -/
def Taken (log : List Record) (message : Message) : Prop := .taken message ∈ log

theorem Taken.append {message : Message} (taken : Taken log message) (more : List Record) :
    Taken (log ++ more) message := List.mem_append_left _ taken

structure Holds (config : Config) (bus : ClientManager) (source : Message → Prop)
    (session : WsSession) : Prop where
  perms : session.recordPerms = .resolvePermissions config.records session.permissions
  streams : ∀ stream ∈ WsSession.streams session, bus.Permitted session.recordPerms stream
  left : ∀ accepting, session.accepting = some accepting → ∀ snap ∈ accepting.left,
    session.recordPerms.isAllowed snap.record = true ∧ source snap.message
  funnel : ∀ event ∈ session.funnel,
    session.recordPerms.isAllowed event.record = true ∧ source event.message

/-- Whether a record of the log gives a client with these permissions only what its grants
cover.  A row of a list is judged by its key; its `u32` id tells the records apart only
while there are at most `2 ^ 32` of them. -/
def Granted (config : Config) (log : List Record) (permissions : Permissions) : Record → Prop
  | .value _ _ record frame =>
      (∃ key, config.records[record]? = some key ∧ permissions.Covers key) ∧
      ∃ message, Taken log message ∧ message.recordIndex = record ∧
        carried frame = some (message.topic, message.payload, message.ts)
  | .listed _ rows => config.records.length ≤ 4294967296 →
      ∀ row ∈ rows, permissions.Covers row.recordKey
  | .queried _ (.ok rows) => ∀ row ∈ rows, permissions.Covers row.topic
  | _ => True

def Record.client : Record → Option ℕ
  | .connected client _ | .accepted client _ _ | .snapshotsRead client _ | .pumping client _
  | .value client _ _ _ | .acknowledged client _ | .refused client _ | .listed client _
  | .queried client _ => some client
  | .taken _ | .broadcast _ => none

structure Invariant (config : Config) (s : Server) (log : List Record) : Prop where
  sound : s.bus.Sound
  bus : s.bus.Sourced (Taken log)
  cache : ∀ snap ∈ s.cache, Taken log snap.message
  loop : ∀ message, s.loop = .taken message → Taken log message
  sessions : ∀ client session, s.sessions client = some session →
    Holds config s.bus (Taken log) session ∧ .connected client session.permissions ∈ log
  fresh : ∀ client, s.nextClient ≤ client → s.sessions client = none
  connected : ∀ client permissions, .connected client permissions ∈ log →
    client < s.nextClient ∧
      ∀ session, s.sessions client = some session → session.permissions = permissions
  once : ∀ client permissions other, .connected client permissions ∈ log →
    .connected client other ∈ log → permissions = other
  clients : ∀ record ∈ log, ∀ client, record.client = some client → client < s.nextClient
  granted : ∀ record ∈ log, ∀ client permissions, record.client = some client →
    .connected client permissions ∈ log → Granted config log permissions record

theorem Granted.append {permissions : Permissions} {record : Record}
    (granted : Granted config log permissions record) (more : List Record) :
    Granted config (log ++ more) permissions record := by
  cases record with
  | value client stream index frame =>
      obtain ⟨covered, message, taken, same⟩ := granted
      exact ⟨covered, message, taken.append more, same⟩
  | queried client rows =>
      cases rows <;> exact granted
  | _ => exact granted

theorem Holds.mono {source weaker : Message → Prop} {bus : ClientManager} {session : WsSession}
    (holds : Holds config bus source session)
    (weaken : ∀ message, source message → weaker message) :
    Holds config bus weaker session :=
  ⟨holds.perms, holds.streams,
    fun accepting accepts snap mem =>
      ⟨(holds.left accepting accepts snap mem).1,
        weaken _ (holds.left accepting accepts snap mem).2⟩,
    fun event mem => ⟨(holds.funnel event mem).1, weaken _ (holds.funnel event mem).2⟩⟩

theorem Holds.covers {source : Message → Prop} {bus : ClientManager} {session : WsSession}
    (holds : Holds config bus source session) {record : ℕ}
    (allowed : session.recordPerms.isAllowed record = true) :
    ∃ key, config.records[record]? = some key ∧ session.permissions.Covers key := by
  rw [holds.perms, RecordsBits.isAllowed_resolvePermissions] at allowed
  obtain ⟨key, found, granted⟩ := allowed
  exact ⟨key, found, Permissions.covers_of_canRead granted⟩

theorem Holds.covers_list {source : Message → Prop} {bus : ClientManager} {session : WsSession}
    (holds : Holds config bus source session) (metadata : ℕ → Metadata)
    (few : config.records.length ≤ 4294967296) :
    ∀ row ∈ (listRecords config.records metadata).filter fun row =>
      session.recordPerms.isAllowed row.recordId.toNat,
      session.permissions.Covers row.recordKey := by
  intro row mem
  obtain ⟨listed, allowed⟩ := List.mem_filter.mp mem
  obtain ⟨entry, inRecords, rfl⟩ := List.mem_map.mp listed
  have found := List.mem_zipIdx_iff_getElem?.mp inRecords
  have small : entry.2 < 4294967296 :=
    Nat.lt_of_lt_of_le (List.getElem?_eq_some_iff.mp found).1 few
  have same : (UInt32.ofNat entry.2).toNat = entry.2 := UInt32.toNat_ofNat_of_lt small
  rw [same] at allowed
  obtain ⟨key, isKey, covered⟩ := holds.covers allowed
  rw [found] at isKey
  obtain rfl := Option.some.inj isKey
  exact covered

theorem Invariant.emit (invariant : Invariant config s log)
    (emits : ∀ record ∈ emitted,
      (∀ client permissions, record ≠ .connected client permissions) ∧
      ∀ client, record.client = some client → client < s.nextClient ∧
        ∀ permissions, .connected client permissions ∈ log →
          Granted config log permissions record) :
    Invariant config s (log ++ emitted) := by
  have wasConnected {client : ℕ} {permissions : Permissions}
      (mem : .connected client permissions ∈ log ++ emitted) :
      .connected client permissions ∈ log := by
    rcases List.mem_append.mp mem with earlier | now
    · exact earlier
    · exact absurd rfl ((emits _ now).1 client permissions)
  refine ⟨invariant.sound, ⟨fun b call found => (invariant.bus.calls b call found).append _,
    fun sub stream opened item queued =>
      (invariant.bus.queues sub stream opened item queued).append _⟩,
    fun snap mem => (invariant.cache snap mem).append _,
    fun message same => (invariant.loop message same).append _, ?_, invariant.fresh,
    fun client permissions mem => invariant.connected client permissions (wasConnected mem),
    fun client permissions other mem too =>
      invariant.once client permissions other (wasConnected mem) (wasConnected too), ?_, ?_⟩
  · intro client session found
    obtain ⟨holds, isConnected⟩ := invariant.sessions client session found
    exact ⟨holds.mono fun message taken => taken.append _, List.mem_append_left _ isConnected⟩
  · intro record mem client isClient
    rcases List.mem_append.mp mem with earlier | now
    · exact invariant.clients record earlier client isClient
    · exact ((emits record now).2 client isClient).1
  · intro record mem client permissions isClient isConnected
    rcases List.mem_append.mp mem with earlier | now
    · exact (invariant.granted record earlier client permissions isClient
        (wasConnected isConnected)).append _
    · exact (((emits record now).2 client isClient).2 permissions
        (wasConnected isConnected)).append _

theorem Holds.of_bus {source : Message → Prop} {bus next : ClientManager} {session : WsSession}
    {emittedBus : List ClientManager.Record} (holds : Holds config bus source session)
    (stepped : ClientManager.Step bus next emittedBus) : Holds config next source session :=
  ⟨holds.perms, fun stream mem => (holds.streams stream mem).step stepped, holds.left,
    holds.funnel⟩

theorem Invariant.of_bus (invariant : Invariant config s log) {bus : ClientManager}
    {emittedBus : List ClientManager.Record} (stepped : ClientManager.Step s.bus bus emittedBus)
    (begins : ∀ message, bus = (s.bus.begin message).1 → Taken log message) (loop : Loop)
    (taken : ∀ message, loop = .taken message → Taken log message) :
    Invariant config { s with bus, loop } log :=
  ⟨invariant.sound.step stepped, invariant.bus.step stepped begins, invariant.cache, taken,
    fun client session found =>
      ⟨(invariant.sessions client session found).1.of_bus stepped,
        (invariant.sessions client session found).2⟩,
    invariant.fresh, invariant.connected, invariant.once, invariant.clients, invariant.granted⟩

theorem Invariant.of_session (invariant : Invariant config s log) {client : ℕ}
    {session next : WsSession} (found : s.sessions client = some session)
    (same : next.permissions = session.permissions)
    (holds : Holds config s.bus (Taken log) next) :
    Invariant config (s.setSession client (some next)) log := by
  refine ⟨invariant.sound, invariant.bus, invariant.cache, invariant.loop, ?_, ?_, ?_,
    invariant.once, invariant.clients, invariant.granted⟩
  · intro other current isCurrent
    by_cases isSame : other = client
    · subst isSame
      obtain rfl : next = current := by simpa [setSession] using isCurrent
      exact ⟨holds, same ▸ (invariant.sessions other session found).2⟩
    · exact invariant.sessions other current (by simpa [setSession, isSame] using isCurrent)
  · intro other late
    have different : other ≠ client := by
      rintro rfl
      rw [invariant.fresh other late] at found
      cases found
    simpa [setSession, different] using invariant.fresh other late
  · intro other permissions isConnected
    obtain ⟨early, only⟩ := invariant.connected other permissions isConnected
    refine ⟨early, fun current isCurrent => ?_⟩
    by_cases isSame : other = client
    · subst isSame
      obtain rfl : next = current := by simpa [setSession] using isCurrent
      exact same.trans (only session found)
    · exact only current (by simpa [setSession, isSame] using isCurrent)

theorem Invariant.remove (invariant : Invariant config s log) (client : ℕ) :
    Invariant config (s.setSession client none) log := by
  have was {other : ℕ} {session : WsSession}
      (found : (s.setSession client none).sessions other = some session) :
      s.sessions other = some session := by
    by_cases isSame : other = client
    · simp [setSession, isSame] at found
    · simpa [setSession, isSame] using found
  refine ⟨invariant.sound, invariant.bus, invariant.cache, invariant.loop,
    fun other session found => invariant.sessions other session (was found), ?_,
    fun other permissions isConnected =>
      ⟨(invariant.connected other permissions isConnected).1, fun session found =>
        (invariant.connected other permissions isConnected).2 session (was found)⟩,
    invariant.once, invariant.clients, invariant.granted⟩
  intro other late
  by_cases isSame : other = client
  · simp [setSession, isSame]
  · simpa [setSession, isSame] using invariant.fresh other late

theorem Invariant.dropStream (invariant : Invariant config s log) (stream : ℕ) :
    Invariant config (s.dropStream stream) log := by
  unfold Server.dropStream
  cases dropped : s.bus.drop stream with
  | none => exact invariant
  | some outcome =>
      have byStep : s.bus.step (.drop stream) = some outcome := dropped
      refine invariant.of_bus (.of_step byStep) (fun message began => ?_) s.loop invariant.loop
      have same := ClientManager.begun_of_step byStep (by simp)
      rw [began] at same
      exact absurd same (Nat.succ_ne_self _)

theorem Invariant.dropStreams (invariant : Invariant config s log) (streams : List ℕ) :
    Invariant config (streams.foldl Server.dropStream s) log := by
  induction streams generalizing s with
  | nil => exact invariant
  | cons stream streams inductionHypothesis =>
      exact inductionHypothesis (invariant.dropStream stream)

theorem begin_injective {bus : ClientManager} {message other : Message}
    (same : (bus.begin message).1 = (bus.begin other).1) : message = other := by
  have calls := congrFun (congrArg ClientManager.broadcasts same) bus.begun
  simp only [ClientManager.begin, ClientManager.setBroadcast, Function.update_self,
    Option.some.injEq, Broadcast.mk.injEq] at calls
  exact calls.1

theorem Invariant.lt_nextClient (invariant : Invariant config s log) {client : ℕ}
    {session : WsSession} (found : s.sessions client = some session) : client < s.nextClient := by
  by_contra late
  rw [invariant.fresh client (Nat.le_of_not_lt late)] at found
  cases found

theorem Invariant.emit_session (invariant : Invariant config s log) {client : ℕ}
    {session : WsSession} (found : s.sessions client = some session)
    (emits : ∀ record ∈ emitted,
      (∀ other permissions, record ≠ .connected other permissions) ∧
      record.client = some client ∧ Granted config log session.permissions record) :
    Invariant config s (log ++ emitted) := by
  refine invariant.emit fun record mem => ⟨(emits record mem).1, ?_⟩
  intro other isClient
  obtain ⟨_, about, granted⟩ := emits record mem
  obtain rfl := Option.some.inj (about.symm.trans isClient)
  exact ⟨invariant.lt_nextClient found, fun permissions isConnected =>
    (invariant.connected client permissions isConnected).2 session found ▸ granted⟩

theorem Invariant.emit_one (invariant : Invariant config s log) {client : ℕ}
    {session : WsSession} (found : s.sessions client = some session) (record : Record)
    (about : record.client = some client)
    (other : ∀ permissions, record ≠ .connected client permissions)
    (granted : Granted config log session.permissions record) :
    Invariant config s (log ++ [record]) := by
  refine invariant.emit_session found fun shown mem => ?_
  rw [List.mem_singleton.mp mem]
  refine ⟨fun on permissions same => ?_, about, granted⟩
  rw [same] at about
  obtain rfl := Option.some.inj about
  exact other permissions same

theorem Invariant.connect (invariant : Invariant config s log) (permissions : Permissions) :
    Invariant config (s.connect config permissions).1
      (log ++ (s.connect config permissions).2) := by
  have isNew {session : WsSession}
      (found : (s.connect config permissions).1.sessions s.nextClient = some session) :
      session = ⟨permissions, .resolvePermissions config.records permissions, none,
          [], []⟩ := by
    simpa [Server.connect, setSession] using found.symm
  have was {client : ℕ} {session : WsSession} (old : client ≠ s.nextClient)
      (found : (s.connect config permissions).1.sessions client = some session) :
      s.sessions client = some session := by
    simpa [Server.connect, setSession, old] using found
  refine ⟨invariant.sound, ⟨fun b call found => (invariant.bus.calls b call found).append _,
    fun sub stream opened item queued =>
      (invariant.bus.queues sub stream opened item queued).append _⟩,
    fun snap mem => (invariant.cache snap mem).append _,
    fun message same => (invariant.loop message same).append _, ?_, ?_, ?_, ?_, ?_, ?_⟩
  · intro client session found
    by_cases same : client = s.nextClient
    · subst same
      obtain rfl := isNew found
      refine ⟨⟨rfl, ?_, ?_, ?_⟩, List.mem_append_right _ (List.mem_singleton.mpr rfl)⟩
      · simp [WsSession.streams]
      · simp
      · simp
    · obtain ⟨holds, isConnected⟩ := invariant.sessions client session (was same found)
      exact ⟨holds.mono fun message taken => taken.append _, List.mem_append_left _ isConnected⟩
  · intro client late
    have newer : s.nextClient < client := late
    simpa [Server.connect, setSession, Nat.ne_of_gt newer] using
      invariant.fresh client (Nat.le_of_lt newer)
  · intro client other mem
    rcases List.mem_append.mp mem with earlier | now
    · obtain ⟨early, only⟩ := invariant.connected client other earlier
      exact ⟨Nat.lt_succ_of_lt early, fun session found =>
        only session (was (Nat.ne_of_lt early) found)⟩
    · obtain ⟨rfl, rfl⟩ := Record.connected.inj (List.mem_singleton.mp now)
      exact ⟨Nat.lt_succ_self _, fun session found => isNew found ▸ rfl⟩
  · have old {client : ℕ} {permissions : Permissions}
      (mem : .connected client permissions ∈ log) :
        client ≠ s.nextClient := Nat.ne_of_lt (invariant.connected client permissions mem).1
    intro client one other mem too
    rcases List.mem_append.mp mem with earlier | now
    · rcases List.mem_append.mp too with early | late
      · exact invariant.once client one other earlier early
      · exact absurd (Record.connected.inj (List.mem_singleton.mp late)).1 (old earlier)
    · obtain ⟨rfl, rfl⟩ := Record.connected.inj (List.mem_singleton.mp now)
      rcases List.mem_append.mp too with early | late
      · exact absurd rfl (old early)
      · exact (Record.connected.inj (List.mem_singleton.mp late)).2.symm
  · intro record mem client isClient
    rcases List.mem_append.mp mem with earlier | now
    · exact Nat.lt_succ_of_lt (invariant.clients record earlier client isClient)
    · rw [List.mem_singleton.mp now] at isClient
      exact Option.some.inj isClient ▸ Nat.lt_succ_self _
  · intro record mem client other isClient isConnected
    rcases List.mem_append.mp mem with earlier | now
    · rcases List.mem_append.mp isConnected with wasConnected | isLast
      · exact (invariant.granted record earlier client other isClient wasConnected).append _
      · obtain ⟨rfl, rfl⟩ := Record.connected.inj (List.mem_singleton.mp isLast)
        exact absurd (invariant.clients record earlier _ isClient) (Nat.lt_irrefl _)
    · rw [List.mem_singleton.mp now]
      trivial

theorem Invariant.take (invariant : Invariant config s log) (message : Message) :
    Invariant config { s with
      cache := if config.lateJoin then
        s.cache.insert ⟨message.recordIndex, message.topic, message.payload, message.ts⟩
        else s.cache
      loop := .taken message } (log ++ [.taken message]) := by
  have logged : Invariant config s (log ++ [.taken message]) := by
    refine invariant.emit fun record mem => ?_
    rw [List.mem_singleton.mp mem]
    exact ⟨fun _ _ same => (by cases same), fun _ same => by cases same⟩
  have isTaken : Taken (log ++ [.taken message]) message :=
    List.mem_append_right _ (List.mem_singleton.mpr rfl)
  refine ⟨logged.sound, logged.bus, ?_, ?_, logged.sessions, logged.fresh, logged.connected,
    logged.once, logged.clients, logged.granted⟩
  · intro snap mem
    dsimp only at mem
    split at mem
    · rcases List.mem_append.mp mem with old | new
      · exact logged.cache snap (List.mem_filter.mp old).1
      · rw [List.mem_singleton.mp new]
        exact isTaken
    · exact logged.cache snap mem
  · intro other same
    obtain rfl := Loop.taken.inj same
    exact isTaken

theorem Invariant.begin (invariant : Invariant config s log) {message : Message}
    (holds : s.loop = .taken message) :
    Invariant config { s with bus := (s.bus.begin message).1, loop := .broadcasting s.bus.begun }
      (log ++ [.broadcast message]) := by
  have moved := invariant.of_bus (.began message)
    (fun other same => begin_injective same ▸ invariant.loop message holds)
    (.broadcasting s.bus.begun) (fun _ same => by cases same)
  refine moved.emit fun record mem => ?_
  rw [List.mem_singleton.mp mem]
  exact ⟨fun _ _ same => (by cases same), fun _ same => by cases same⟩

theorem Invariant.moveBus (invariant : Invariant config s log) {input : ClientManager.Input}
    {bus : ClientManager} {emittedBus : List ClientManager.Record} (inner : Inner input = true)
    (moved : s.bus.step input = some (bus, emittedBus)) :
    Invariant config { s with bus, loop := s.loopAfter input } log := by
  refine invariant.of_bus (.of_step moved) (fun message began => ?_) _ (fun message same => ?_)
  · have same := ClientManager.begun_of_step moved fun other isBroadcast => by
      rw [isBroadcast] at inner
      cases inner
    rw [began] at same
    exact absurd same (Nat.succ_ne_self _)
  · apply invariant.loop
    cases input <;> first | exact same | cases same

theorem Invariant.restage (invariant : Invariant config s log) {client : ℕ} {session : WsSession}
    {accepting next : Accepting} (found : s.sessions client = some session)
    (accepts : session.accepting = some accepting) (stream : next.stream = accepting.stream)
    (left : ∀ snap ∈ next.left,
      session.recordPerms.isAllowed snap.record = true ∧ Taken log snap.message) :
    Invariant config (s.setSession client (some { session with accepting := some next })) log := by
  obtain ⟨holds, _⟩ := invariant.sessions client session found
  refine invariant.of_session found rfl ⟨holds.perms, ?_, ?_, holds.funnel⟩
  · intro on mem
    apply holds.streams
    simpa [WsSession.streams, accepts, stream] using mem
  · intro current isCurrent
    obtain rfl := Option.some.inj isCurrent
    exact left

theorem Invariant.left (invariant : Invariant config s log) {client : ℕ} {session : WsSession}
    {accepting : Accepting} (found : s.sessions client = some session)
    (accepts : session.accepting = some accepting) {left : List Snapshot}
    (stage : accepting.stage = .bursting left) :
    ∀ snap ∈ left, session.recordPerms.isAllowed snap.record = true ∧
        Taken log snap.message := by
  have held := (invariant.sessions client session found).1.left accepting accepts
  rwa [Accepting.left, stage] at held

theorem Invariant.accept (invariant : Invariant config s log) {client : ℕ} {session : WsSession}
    (found : s.sessions client = some session) (subId topic : String) :
    Invariant config { s.setSession client (some { session with
        accepting := some { subId, topic, stream := s.bus.nextSub } }) with
      bus := (s.bus.subscribe topic session.recordPerms).1 } log := by
  obtain ⟨holds, _⟩ := invariant.sessions client session found
  have moved := invariant.of_bus (.subscribed topic session.recordPerms)
    (fun message began => by
      have same := congrArg ClientManager.nextSub began
      exact absurd same (Nat.succ_ne_self _)) s.loop invariant.loop
  have still := holds.of_bus (.subscribed topic session.recordPerms)
  refine moved.of_session found rfl ⟨holds.perms, ?_, ?_, holds.funnel⟩
  · intro on mem
    rcases List.mem_append.mp mem with new | old
    · rw [List.mem_singleton.mp new]
      exact invariant.sound.permitted_subscribe topic
    · exact still.streams on (List.mem_append_right _ old)
  · intro current isCurrent
    obtain rfl := Option.some.inj isCurrent
    intro snap mem
    cases mem

theorem Invariant.snapshotsOf (invariant : Invariant config s log) (session : WsSession)
    (topic : String) (keys : List (ℕ × String)) :
    ∀ snap ∈ s.snapshotsOf config session topic keys,
      session.recordPerms.isAllowed snap.record = true ∧ Taken log snap.message := by
  intro snap mem
  unfold Server.snapshotsOf at mem
  split at mem
  · obtain ⟨matching, allowed⟩ := List.mem_filter.mp mem
    obtain ⟨key, _, isSnap⟩ := List.mem_filterMap.mp (List.mem_filter.mp matching).1
    exact ⟨allowed, invariant.cache snap (List.mem_of_find?_eq_some isSnap)⟩
  · cases mem

theorem Invariant.burst (invariant : Invariant config s log) {client : ℕ} {session : WsSession}
    {accepting : Accepting} {snap : Snapshot} {left : List Snapshot}
    (found : s.sessions client = some session) (accepts : session.accepting = some accepting)
    (stage : accepting.stage = .bursting (snap :: left)) (seq : UInt64) (last : Bool) :
    Invariant config (s.setSession client (some { session with
        accepting := some { accepting with stage := .bursting left, seq } }))
      (log ++ if config.asRaw snap.data then
        [.value client accepting.stream snap.record
          (.snapshot accepting.subId seq last snap.topic snap.ts snap.data)] else []) := by
  have held := invariant.left found accepts stage
  obtain ⟨allowed, taken⟩ := held snap List.mem_cons_self
  have shown : Invariant config s (log ++ if config.asRaw snap.data then
      [.value client accepting.stream snap.record
        (.snapshot accepting.subId seq last snap.topic snap.ts snap.data)] else []) := by
    refine invariant.emit_session found fun record mem => ?_
    split at mem
    · rw [List.mem_singleton.mp mem]
      exact ⟨fun _ _ same => (by cases same), rfl,
        (invariant.sessions client session found).1.covers allowed, snap.message, taken, rfl, rfl⟩
    · cases mem
  refine shown.restage found accepts ?_ ?_
  · rfl
  · exact fun other mem => shown.left found accepts stage other (List.mem_cons_of_mem _ mem)

theorem Invariant.pump (invariant : Invariant config s log) {client : ℕ} {session : WsSession}
    {accepting : Accepting} (found : s.sessions client = some session)
    (accepts : session.accepting = some accepting) (pump : Pump)
    (stream : pump.stream = accepting.stream) :
    Invariant config (s.setSession client
      (some { session with accepting := none, pumps := session.pumps ++ [pump] })) log := by
  obtain ⟨holds, _⟩ := invariant.sessions client session found
  refine invariant.of_session found rfl ⟨holds.perms, ?_, ?_, holds.funnel⟩
  · intro on mem
    apply holds.streams
    simp only [WsSession.streams, Option.toList_none, List.map_nil, List.nil_append,
      List.map_append, List.mem_append] at mem
    rcases mem with old | new
    · exact List.mem_append_right _ old
    · rw [List.mem_singleton.mp new, WsSession.streams, accepts, stream]
      exact List.mem_cons_self
  · intro current isCurrent
    cases isCurrent

theorem Invariant.pull (invariant : Invariant config s log) {client index : ℕ}
    {session : WsSession} {pump : Pump} {bus : ClientManager} {stream : ℕ} {item : Queued}
    (found : s.sessions client = some session) (isPump : session.pumps[index]? = some pump)
    (polled : s.bus.poll pump.stream = some (bus, [.yielded stream item])) (next : Pump)
    (same : next.stream = pump.stream) :
    Invariant config { s.setSession client (some { session with
        accepting := none
        pumps := session.pumps.set index next
        funnel := if session.funnel.length < eventBuffer then
          session.funnel ++ [eventOf pump item] else session.funnel }) with bus } log := by
  obtain ⟨holds, _⟩ := invariant.sessions client session found
  have byStep : s.bus.step (.poll pump.stream) = some (bus, [.yielded stream item]) := polled
  have moved := invariant.of_bus (.of_step byStep) (fun message began => by
    have begun := ClientManager.begun_of_step byStep (by simp)
    rw [began] at begun
    exact absurd begun (Nat.succ_ne_self _)) s.loop invariant.loop
  have still := holds.of_bus (.of_step byStep)
  have owned : pump.stream ∈ WsSession.streams session :=
    List.mem_append_right _ (List.mem_map_of_mem (List.mem_of_getElem? isPump))
  obtain ⟨current, rest, opened, _, queued, _⟩ := ClientManager.poll_spec polled
  have inQueue : item ∈ current.queue := queued ▸ List.mem_cons_self
  refine moved.of_session found rfl ⟨holds.perms, ?_, ?_, ?_⟩
  · intro on mem
    apply still.streams
    simp only [WsSession.streams, Option.toList_none, List.map_nil, List.nil_append,
      List.map_set, same] at mem
    rcases List.mem_or_eq_of_mem_set mem with old | new
    · exact List.mem_append_right _ old
    · exact new ▸ owned
  · intro accepting isAccepting
    cases isAccepting
  · intro event mem
    dsimp only at mem
    split at mem
    · rcases List.mem_append.mp mem with old | new
      · exact holds.funnel event old
      · rw [List.mem_singleton.mp new]
        exact ⟨(holds.streams _ owned).queue current opened item inQueue,
          invariant.bus.queues _ current opened item inQueue⟩
    · exact holds.funnel event mem

theorem Invariant.step (invariant : Invariant config s log)
    (stepped : Step config s input after emitted) :
    Invariant config after (log ++ emitted) := by
  cases stepped with
  | connected permissions => exact invariant.connect permissions
  | @disconnected client session found =>
      rw [List.append_nil]
      exact (invariant.remove client).dropStreams _
  | taken waits => exact invariant.take _
  | began holds => exact invariant.begin holds
  | moved inner moved =>
      rw [List.append_nil]
      exact invariant.moveBus inner moved
  | refused subId topic found =>
      exact invariant.emit_one found (.refused _ subId) rfl (by simp) trivial
  | accepted subId topic found idle grants =>
      exact (invariant.emit_one found (.accepted _ _ topic) rfl (by simp) trivial).accept found
        subId topic
  | @acknowledged client session accepting found accepts stage =>
      have shown :=
        invariant.emit_one found (.acknowledged client accepting.subId) rfl (by simp) trivial
      refine shown.restage found accepts rfl ?_
      exact fun snap mem => by cases mem
  | @read client session accepting keys found accepts stage isIter =>
      have shown :=
        invariant.emit_one found (.snapshotsRead client accepting.stream) rfl (by simp) trivial
      exact shown.restage found accepts rfl (shown.snapshotsOf _ _ _)
  | burst found accepts stage => exact invariant.burst found accepts stage _ _
  | @pumped client session accepting found accepts stage =>
      have shown :=
        invariant.emit_one found (.pumping client accepting.stream) rfl (by simp) trivial
      exact shown.pump found accepts _ rfl
  | @unsubscribed client session pump subId found idle isPump =>
      obtain ⟨holds, _⟩ := invariant.sessions client session found
      rw [List.append_nil]
      apply Invariant.dropStream
      refine invariant.of_session found rfl
        ⟨holds.perms, fun on mem => ?_, holds.left, holds.funnel⟩
      apply holds.streams
      rcases List.mem_append.mp mem with accepting | pumped
      · exact List.mem_append_left _ accepting
      · exact List.mem_append_right _ (((List.erase_sublist ..).map _).mem pumped)
  | ignored _ _ =>
      rw [List.append_nil]
      exact invariant
  | pulled found idle isPump polled =>
      rw [List.append_nil]
      exact invariant.pull found isPump polled _ rfl
  | @forwarded client session event funnel found idle queued =>
      obtain ⟨holds, _⟩ := invariant.sessions client session found
      obtain ⟨allowed, taken⟩ := holds.funnel event (queued ▸ List.mem_cons_self)
      have shown := invariant.emit_one found
        (.value client event.stream event.record (SubEvent.frame event)) rfl (by simp)
        ⟨holds.covers allowed, event.message, taken, rfl, rfl⟩
      obtain ⟨stillHolds, _⟩ := shown.sessions client session found
      refine shown.of_session found rfl ⟨holds.perms, ?_, ?_, ?_⟩
      · intro on mem
        apply holds.streams
        rw [WsSession.streams, idle]
        exact mem
      · intro accepting isAccepting
        cases isAccepting
      · exact fun other mem => stillHolds.funnel other (queued ▸ List.mem_cons_of_mem _ mem)
  | @listed client session metadata found =>
      obtain ⟨holds, _⟩ := invariant.sessions client session found
      refine invariant.emit_one found (.listed client _) rfl (by simp) fun few row mem => ?_
      obtain ⟨plain, inList, rfl⟩ := List.mem_map.mp mem
      exact holds.covers_list metadata few plain inList
  | failed answer error found =>
      exact invariant.emit_one found (.queried _ (.error error)) rfl (by simp) trivial
  | queried records found grants =>
      refine invariant.emit_one found (.queried _ (.ok _)) rfl (by simp) fun row mem => ?_
      exact Permissions.covers_of_canRead (List.mem_filter.mp mem).2

theorem invariant_new (config : Config) : Invariant config (new config) [] where
  sound := ClientManager.sound_new _
  bus := ⟨by simp [new, ClientManager.new], by simp [new, ClientManager.new]⟩
  cache := by simp [new]
  loop := by simp [new]
  sessions := by simp [new]
  fresh := by simp [new]
  connected := by simp
  once := by simp
  clients := by simp
  granted := by simp

theorem invariant_of_reachable
    (reached : Reachable (step config) (new config) s log) : Invariant config s log := by
  refine reached.invariant (Invariant config) (invariant_new config) ?_
  intro s log input after emitted _ _ stepped holds
  exact holds.step (.of_step stepped)

end Server

end AimDb.WebSocket
