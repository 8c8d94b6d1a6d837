import AimDb.WebSocket.ClientManager

/-!
# The steps of the bus
-/

namespace AimDb.WebSocket.ClientManager

open Transition

inductive Step (s : ClientManager) : ClientManager → List Record → Prop
  | subscribed (pattern : String) (recordPerms : RecordsBits) :
      Step s (s.subscribe pattern recordPerms).1 (s.subscribe pattern recordPerms).2
  | began (message : Message) : Step s (s.begin message).1 (s.begin message).2
  | skipped {b sub : ℕ} {call : Broadcast} {entry : SubEntry} :
      s.broadcasts b = some call → s.subs sub = some entry → call.hand = .empty →
      sub ∉ call.visited → entry.accepts call.message.topic call.message.recordIndex = false →
      Step s (s.setBroadcast b (some { call with visited := sub :: call.visited }))
        [.reached b sub call.message]
  | took {b sub : ℕ} {call : Broadcast} {entry : SubEntry} :
      s.broadcasts b = some call → s.subs sub = some entry → call.hand = .empty →
      call.iterated = false → sub ∉ call.visited →
      entry.accepts call.message.topic call.message.recordIndex = true →
      Step s ((s.setEntry sub (some { entry with dropped := 0 })).setBroadcast b
        (some { call with visited := sub :: call.visited, hand := .carrying sub entry.dropped }))
        [.reached b sub call.message]
  | gone {b sub carried : ℕ} {call : Broadcast} {stream : SubStream} :
      s.broadcasts b = some call → call.hand = .carrying sub carried →
      s.streams sub = some stream → stream.receiverGone = true →
      Step s (s.setBroadcast b (some { call with hand := .empty, dead := call.dead ++ [sub] })) []
  | full {b sub carried : ℕ} {call : Broadcast} {stream : SubStream} :
      s.broadcasts b = some call → call.hand = .carrying sub carried →
      s.streams sub = some stream → s.subCapacity ≤ stream.queue.length →
      Step s (s.setBroadcast b (some { call with hand := .restoring sub (carried + 1) })) []
  | sent {b sub carried : ℕ} {call : Broadcast} {stream : SubStream} :
      s.broadcasts b = some call → call.hand = .carrying sub carried →
      s.streams sub = some stream → stream.receiverGone = false →
      stream.queue.length < s.subCapacity →
      Step s ((s.setStream sub
        { stream with queue := stream.queue ++ [update call.message carried] }).setBroadcast b
          (some { call with hand := .empty })) []
  | restored {b sub amount : ℕ} {call : Broadcast} {entry : SubEntry} :
      s.broadcasts b = some call → call.hand = .restoring sub amount →
      s.subs sub = some entry →
      Step s ((s.setEntry sub (some { entry with dropped := entry.dropped + amount })).setBroadcast
        b (some { call with hand := .empty })) []
  | iterated {b : ℕ} {call : Broadcast} :
      s.broadcasts b = some call → call.hand = .empty →
      (∀ sub < call.limit, (s.subs sub).isSome → sub ∈ call.visited) →
      Step s (s.setBroadcast b (some { call with iterated := true })) []
  | pruned {b sub : ℕ} {call : Broadcast} {dead : List ℕ} :
      s.broadcasts b = some call → call.dead = sub :: dead → s.Unlocked sub →
      Step s ((s.setEntry sub none).setBroadcast b (some { call with dead })) []
  | finished {b : ℕ} {call : Broadcast} :
      s.broadcasts b = some call → call.iterated = true → Step s (s.setBroadcast b none) []
  | polled {sub : ℕ} {stream : SubStream} {item : Queued} {queue : List Queued} :
      s.streams sub = some stream → stream.dropping = false → stream.queue = item :: queue →
      Step s (s.setStream sub { stream with queue }) [.yielded sub item]
  | dropped {sub : ℕ} {stream : SubStream} :
      s.streams sub = some stream →
      Step s (s.setStream sub { stream with dropping := true }) []
  | receiverDropped {sub : ℕ} {stream : SubStream} :
      s.streams sub = some stream → stream.dropping = true →
      Step s (s.setStream sub { stream with queue := [], receiverGone := true }) []
  | guardDropped {sub : ℕ} {stream : SubStream} :
      s.streams sub = some stream → stream.dropping = true → s.Unlocked sub →
      Step s ((s.setEntry sub none).setStream sub { stream with guardGone := true }) []

variable {s after : ClientManager} {input : Input} {emitted : List Record}

theorem Step.of_trySend {b : ℕ} (stepped : s.trySend b = some (after, emitted)) :
    Step s after emitted := by
  unfold trySend at stepped
  cases found : s.broadcasts b with
  | none => simp [found] at stepped
  | some call =>
      cases held : call.hand with
      | empty => simp [found, held] at stepped
      | restoring sub amount => simp [found, held] at stepped
      | carrying sub carried =>
          cases opened : s.streams sub with
          | none => simp [found, held, opened] at stepped
          | some stream =>
              simp only [found, held, opened] at stepped
              split_ifs at stepped with gone full
              · cases stepped
                exact .gone found held opened gone
              · cases stepped
                exact .full found held opened full
              · cases stepped
                exact .sent found held opened (by simpa using gone) (Nat.lt_of_not_le full)

theorem Step.of_step (stepped : step s input = some (after, emitted)) : Step s after emitted := by
  cases input with
  | subscribe pattern recordPerms =>
      cases stepped
      exact .subscribed pattern recordPerms
  | broadcast message =>
      cases stepped
      exact .began message
  | visit b sub =>
      simp only [step, visit] at stepped
      cases found : s.broadcasts b with
      | none => simp [found] at stepped
      | some call =>
          cases registered : s.subs sub with
          | none => simp [found, registered] at stepped
          | some entry =>
              simp only [found, registered] at stepped
              split_ifs at stepped with free accepted
              · cases stepped
                exact .took found registered free.1 free.2.1 free.2.2 accepted
              · cases stepped
                exact .skipped found registered free.1 free.2.2 (by simpa using accepted)
  | trySend b => exact of_trySend stepped
  | restore b =>
      simp only [step, restore] at stepped
      cases found : s.broadcasts b with
      | none => simp [found] at stepped
      | some call =>
          cases held : call.hand with
          | empty => simp [found, held] at stepped
          | carrying sub carried => simp [found, held] at stepped
          | restoring sub amount =>
              cases registered : s.subs sub with
              | none => simp [found, held, registered] at stepped
              | some entry =>
                  simp only [found, held, registered] at stepped
                  cases stepped
                  exact .restored found held registered
  | endIteration b =>
      simp only [step, endIteration] at stepped
      cases found : s.broadcasts b with
      | none => simp [found] at stepped
      | some call =>
          simp only [found] at stepped
          split_ifs at stepped with ends
          cases stepped
          exact .iterated found ends.1 ends.2
  | prune b =>
      simp only [step, prune] at stepped
      cases found : s.broadcasts b with
      | none => simp [found] at stepped
      | some call =>
          cases waiting : call.dead with
          | nil => simp [found, waiting] at stepped
          | cons sub dead =>
              simp only [found, waiting] at stepped
              split_ifs at stepped with removable
              cases stepped
              exact .pruned found waiting removable.2
  | finish b =>
      simp only [step, finish] at stepped
      cases found : s.broadcasts b with
      | none => simp [found] at stepped
      | some call =>
          simp only [found] at stepped
          split_ifs at stepped with ends
          cases stepped
          exact .finished found ends.1
  | poll sub =>
      simp only [step, poll] at stepped
      cases opened : s.streams sub with
      | none => simp [opened] at stepped
      | some stream =>
          cases queued : stream.queue with
          | nil => simp [opened, queued] at stepped
          | cons item queue =>
              simp only [opened, queued] at stepped
              split_ifs at stepped with leaving
              cases stepped
              exact .polled opened (by simpa using leaving) queued
  | drop sub =>
      simp only [step, drop] at stepped
      cases opened : s.streams sub with
      | none => simp [opened] at stepped
      | some stream =>
          simp only [opened] at stepped
          split_ifs at stepped
          cases stepped
          exact .dropped opened
  | dropReceiver sub =>
      simp only [step, dropReceiver] at stepped
      cases opened : s.streams sub with
      | none => simp [opened] at stepped
      | some stream =>
          simp only [opened] at stepped
          split_ifs at stepped with leaving
          cases stepped
          exact .receiverDropped opened leaving.1
  | dropGuard sub =>
      simp only [step, dropGuard] at stepped
      cases opened : s.streams sub with
      | none => simp [opened] at stepped
      | some stream =>
          simp only [opened] at stepped
          split_ifs at stepped with leaving
          cases stepped
          exact .guardDropped opened leaving.1 leaving.2.2

end AimDb.WebSocket.ClientManager
