import AimDb.WebSocket.ClientManager

/-!
# The bus does not look at values

Changing every value of the bus changes no decision of it.
-/

namespace AimDb.WebSocket

open Session (Payload)

variable (f : ℕ → Payload → Payload)

def Message.mapData (message : Message) : Message :=
  { message with payload := f message.recordIndex message.payload }

def Queued.mapData (item : Queued) : Queued :=
  ⟨item.record, { item.update with data := f item.record item.update.data }⟩

def SubStream.mapData (stream : SubStream) : SubStream :=
  { stream with queue := stream.queue.map (Queued.mapData f) }

def Broadcast.mapData (call : Broadcast) : Broadcast :=
  { call with message := call.message.mapData f }

namespace ClientManager

def mapData (s : ClientManager) : ClientManager :=
  { s with
    streams := Option.map (SubStream.mapData f) ∘ s.streams
    broadcasts := Option.map (Broadcast.mapData f) ∘ s.broadcasts }

def Input.mapData : Input → Input
  | .broadcast message => .broadcast (message.mapData f)
  | input => input

def Record.mapData : Record → Record
  | .subscribed sub pattern recordPerms => .subscribed sub pattern recordPerms
  | .reached b sub message => .reached b sub (message.mapData f)
  | .yielded sub item => .yielded sub (item.mapData f)

def mapOutcome (outcome : ClientManager × List Record) : ClientManager × List Record :=
  (outcome.1.mapData f, outcome.2.map (Record.mapData f))

variable (s : ClientManager) (sub b : ℕ)

@[simp] theorem mapData_subs : (s.mapData f).subs = s.subs := rfl
@[simp] theorem mapData_nextSub : (s.mapData f).nextSub = s.nextSub := rfl
@[simp] theorem mapData_begun : (s.mapData f).begun = s.begun := rfl
@[simp] theorem mapData_subCapacity : (s.mapData f).subCapacity = s.subCapacity := rfl

@[simp] theorem mapData_streams :
    (s.mapData f).streams sub = (s.streams sub).map (SubStream.mapData f) := rfl

@[simp] theorem mapData_broadcasts :
    (s.mapData f).broadcasts b = (s.broadcasts b).map (Broadcast.mapData f) := rfl

@[simp] theorem mapData_setEntry (entry : Option SubEntry) :
    (s.setEntry sub entry).mapData f = (s.mapData f).setEntry sub entry := rfl

@[simp] theorem mapData_setStream (stream : SubStream) :
    (s.setStream sub stream).mapData f = (s.mapData f).setStream sub (stream.mapData f) := by
  simp [setStream, mapData, Function.comp_update]

@[simp] theorem mapData_setBroadcast (call : Option Broadcast) :
    (s.setBroadcast b call).mapData f =
      (s.mapData f).setBroadcast b (call.map (Broadcast.mapData f)) := by
  simp [setBroadcast, mapData, Function.comp_update]

theorem unlocked_mapData : (s.mapData f).Unlocked sub ↔ s.Unlocked sub := by
  have same (b : ℕ) : ((s.mapData f).broadcasts b).bind (·.hand.entry) =
      (s.broadcasts b).bind (·.hand.entry) := by
    rw [mapData_broadcasts, Option.bind_map]
    rfl
  simp only [Unlocked, same, mapData_begun]

theorem visit_mapData : (s.mapData f).visit b sub = (s.visit b sub).map (mapOutcome f) := by
  unfold visit
  rw [mapData_broadcasts, mapData_subs]
  cases s.broadcasts b with
  | none => rfl
  | some call =>
      cases s.subs sub with
      | none => rfl
      | some entry =>
          obtain ⟨message, limit, visited, hand, dead, iterated⟩ := call
          dsimp only [Option.map_some, Broadcast.mapData, Message.mapData]
          split_ifs
          · simp [mapOutcome, Record.mapData, Broadcast.mapData, Message.mapData]
          · simp [mapOutcome, Record.mapData, Broadcast.mapData, Message.mapData]
          · rfl

theorem trySend_mapData : (s.mapData f).trySend b = (s.trySend b).map (mapOutcome f) := by
  unfold trySend
  rw [mapData_broadcasts]
  cases s.broadcasts b with
  | none => rfl
  | some call =>
      obtain ⟨message, limit, visited, hand, dead, iterated⟩ := call
      dsimp only [Option.map_some, Broadcast.mapData]
      cases hand with
      | empty => rfl
      | restoring sub amount => rfl
      | carrying sub carried =>
          dsimp only
          rw [mapData_streams]
          cases s.streams sub with
          | none => rfl
          | some stream =>
              obtain ⟨queue, dropping, receiverGone, guardGone⟩ := stream
              dsimp only [Option.map_some, SubStream.mapData]
              rw [List.length_map, mapData_subCapacity]
              split_ifs
              · simp [mapOutcome, Broadcast.mapData]
              · simp [mapOutcome, Broadcast.mapData]
              · simp [mapOutcome, Broadcast.mapData, SubStream.mapData, update, Queued.mapData,
                  Message.mapData]

theorem restore_mapData : (s.mapData f).restore b = (s.restore b).map (mapOutcome f) := by
  unfold restore
  rw [mapData_broadcasts]
  cases s.broadcasts b with
  | none => rfl
  | some call =>
      obtain ⟨message, limit, visited, hand, dead, iterated⟩ := call
      dsimp only [Option.map_some, Broadcast.mapData]
      cases hand with
      | empty => rfl
      | carrying sub carried => rfl
      | restoring sub amount =>
          dsimp only
          rw [mapData_subs]
          cases s.subs sub with
          | none => rfl
          | some entry => simp [mapOutcome, Broadcast.mapData]

theorem endIteration_mapData :
    (s.mapData f).endIteration b = (s.endIteration b).map (mapOutcome f) := by
  unfold endIteration
  rw [mapData_broadcasts]
  cases s.broadcasts b with
  | none => rfl
  | some call =>
      obtain ⟨message, limit, visited, hand, dead, iterated⟩ := call
      dsimp only [Option.map_some, Broadcast.mapData]
      split_ifs with ends other other
      · simp [mapOutcome, Broadcast.mapData]
      · exact absurd ends other
      · exact absurd other ends
      · rfl

theorem prune_mapData : (s.mapData f).prune b = (s.prune b).map (mapOutcome f) := by
  unfold prune
  rw [mapData_broadcasts]
  cases s.broadcasts b with
  | none => rfl
  | some call =>
      obtain ⟨message, limit, visited, hand, dead, iterated⟩ := call
      dsimp only [Option.map_some, Broadcast.mapData]
      cases dead with
      | nil => rfl
      | cons sub dead =>
          simp only [unlocked_mapData]
          split_ifs
          · simp [mapOutcome, Broadcast.mapData]
          · rfl

theorem finish_mapData : (s.mapData f).finish b = (s.finish b).map (mapOutcome f) := by
  unfold finish
  rw [mapData_broadcasts]
  cases s.broadcasts b with
  | none => rfl
  | some call =>
      obtain ⟨message, limit, visited, hand, dead, iterated⟩ := call
      dsimp only [Option.map_some, Broadcast.mapData]
      split_ifs
      · simp [mapOutcome]
      · rfl

theorem poll_mapData : (s.mapData f).poll sub = (s.poll sub).map (mapOutcome f) := by
  unfold poll
  rw [mapData_streams]
  cases s.streams sub with
  | none => rfl
  | some stream =>
      obtain ⟨queue, dropping, receiverGone, guardGone⟩ := stream
      cases queue with
      | nil => rfl
      | cons item queue =>
          dsimp only [Option.map_some, SubStream.mapData, List.map_cons]
          split_ifs
          · rfl
          · simp [mapOutcome, Record.mapData, SubStream.mapData]

theorem drop_mapData : (s.mapData f).drop sub = (s.drop sub).map (mapOutcome f) := by
  unfold drop
  rw [mapData_streams]
  cases s.streams sub with
  | none => rfl
  | some stream =>
      obtain ⟨queue, dropping, receiverGone, guardGone⟩ := stream
      dsimp only [Option.map_some, SubStream.mapData]
      split_ifs
      · rfl
      · simp [mapOutcome, SubStream.mapData]

theorem dropReceiver_mapData :
    (s.mapData f).dropReceiver sub = (s.dropReceiver sub).map (mapOutcome f) := by
  unfold dropReceiver
  rw [mapData_streams]
  cases s.streams sub with
  | none => rfl
  | some stream =>
      obtain ⟨queue, dropping, receiverGone, guardGone⟩ := stream
      dsimp only [Option.map_some, SubStream.mapData]
      split_ifs
      · simp [mapOutcome, SubStream.mapData]
      · rfl

theorem dropGuard_mapData :
    (s.mapData f).dropGuard sub = (s.dropGuard sub).map (mapOutcome f) := by
  unfold dropGuard
  rw [mapData_streams]
  cases s.streams sub with
  | none => rfl
  | some stream =>
      obtain ⟨queue, dropping, receiverGone, guardGone⟩ := stream
      dsimp only [Option.map_some, SubStream.mapData]
      simp only [unlocked_mapData]
      split_ifs
      · simp [mapOutcome, SubStream.mapData]
      · rfl

theorem subscribe_mapData (pattern : String) (recordPerms : RecordsBits) :
    (s.mapData f).subscribe pattern recordPerms =
        mapOutcome f (s.subscribe pattern recordPerms) := by
  simp [subscribe, mapOutcome, Record.mapData, mapData, setStream, setEntry, Function.comp_update,
    SubStream.mapData]

theorem begin_mapData (message : Message) :
    (s.mapData f).begin (message.mapData f) = mapOutcome f (s.begin message) := by
  simp [ClientManager.begin, mapOutcome, mapData, setBroadcast, Function.comp_update,
    Broadcast.mapData]

theorem step_mapData (input : Input) :
    (s.mapData f).step (input.mapData f) = (s.step input).map (mapOutcome f) := by
  cases input with
  | subscribe pattern recordPerms => exact congrArg some (subscribe_mapData f s pattern recordPerms)
  | broadcast message => exact congrArg some (begin_mapData f s message)
  | visit b sub => exact visit_mapData f s sub b
  | trySend b => exact trySend_mapData f s b
  | restore b => exact restore_mapData f s b
  | endIteration b => exact endIteration_mapData f s b
  | prune b => exact prune_mapData f s b
  | finish b => exact finish_mapData f s b
  | poll sub => exact poll_mapData f s sub
  | drop sub => exact drop_mapData f s sub
  | dropReceiver sub => exact dropReceiver_mapData f s sub
  | dropGuard sub => exact dropGuard_mapData f s sub

end ClientManager

end AimDb.WebSocket
