import AimDb.WebSocket.ClientManager.Tables

/-!
# Where entries, messages and queued updates come from
-/

namespace AimDb.WebSocket

def Queued.message (item : Queued) : Message :=
  ⟨item.update.topic, item.record, item.update.data, item.update.ts⟩

@[simp] theorem message_update (message : Message) (carried : ℕ) :
    (ClientManager.update message carried).message = message := rfl

namespace ClientManager

variable {s after : ClientManager} {emitted : List Record}

theorem Step.entry_cases (stepped : Step s after emitted) {sub : ℕ} {entry : SubEntry}
    (found : after.subs sub = some entry) :
    (∃ before, s.subs sub = some before ∧ before.pattern = entry.pattern ∧
      before.recordPerms = entry.recordPerms) ∨
    sub = s.nextSub ∧ emitted = [.subscribed sub entry.pattern entry.recordPerms] := by
  have kept (was : s.subs sub = some entry) : ∃ before, s.subs sub = some before ∧
      before.pattern = entry.pattern ∧ before.recordPerms = entry.recordPerms :=
    ⟨entry, was, rfl, rfl⟩
  cases stepped with
  | subscribed pattern recordPerms =>
      by_cases same : sub = s.nextSub
      · subst same
        obtain rfl : { pattern, recordPerms } = entry := by
          simpa [ClientManager.subscribe] using found
        exact .inr ⟨rfl, rfl⟩
      · exact .inl (kept (by simpa [ClientManager.subscribe, same] using found))
  | @took b other call before _ was _ _ _ _ | @restored b other amount call before _ _ was =>
      by_cases same : sub = other
      · subst same
        obtain rfl := Option.some.inj ((Function.update_self sub _ s.subs).symm.trans found)
        exact .inl ⟨before, was, rfl, rfl⟩
      · exact .inl (kept (by simpa [same] using found))
  | @pruned b other call dead _ _ _ | @guardDropped other stream _ _ _ =>
      by_cases same : sub = other
      · simp [same] at found
      · exact .inl (kept (by simpa [same] using found))
  | began _ | skipped _ _ _ _ _ | gone _ _ _ _ | full _ _ _ _ | sent _ _ _ _ _ | iterated _ _ _
  | finished _ _ | polled _ _ _ | dropped _ | receiverDropped _ _ => exact .inl (kept found)

theorem Step.queue_cases (stepped : Step s after emitted) {sub : ℕ} {stream : SubStream}
    (opened : after.streams sub = some stream) {item : Queued} (queued : item ∈ stream.queue) :
    (∃ before, s.streams sub = some before ∧ item ∈ before.queue) ∨
    ∃ b call carried, s.broadcasts b = some call ∧ call.hand = .carrying sub carried ∧
      item.message = call.message := by
  have kept (was : s.streams sub = some stream) :
      ∃ before, s.streams sub = some before ∧ item ∈ before.queue := ⟨stream, was, queued⟩
  cases stepped with
  | subscribed pattern recordPerms =>
      by_cases same : sub = s.nextSub
      · obtain rfl : {} = stream := by simpa [ClientManager.subscribe, same] using opened
        cases queued
      · exact .inl (kept (by simpa [ClientManager.subscribe, same] using opened))
  | @sent b other carried call before found holds was _ _ =>
      by_cases same : sub = other
      · subst same
        obtain rfl : { before with queue := before.queue ++ [update call.message carried] } =
            stream := by simpa using opened
        rcases List.mem_append.mp queued with earlier | now
        · exact .inl ⟨before, was, earlier⟩
        · rw [List.mem_singleton.mp now]
          exact .inr ⟨b, call, carried, found, holds, rfl⟩
      · exact .inl (kept (by simpa [same] using opened))
  | @polled other before first rest was _ isQueue =>
      by_cases same : sub = other
      · subst same
        obtain rfl : { before with queue := rest } = stream := by simpa using opened
        exact .inl ⟨before, was, isQueue ▸ List.mem_cons_of_mem _ queued⟩
      · exact .inl (kept (by simpa [same] using opened))
  | @dropped other before was | @guardDropped other before was _ _ =>
      by_cases same : sub = other
      · subst same
        obtain rfl := Option.some.inj ((Function.update_self sub _ s.streams).symm.trans opened)
        exact .inl ⟨before, was, queued⟩
      · exact .inl (kept (by simpa [same] using opened))
  | @receiverDropped other before was _ =>
      by_cases same : sub = other
      · subst same
        obtain rfl := Option.some.inj ((Function.update_self sub _ s.streams).symm.trans opened)
        cases queued
      · exact .inl (kept (by simpa [same] using opened))
  | began _ | skipped _ _ _ _ _ | took _ _ _ _ _ _ | gone _ _ _ _ | full _ _ _ _
  | restored _ _ _ | iterated _ _ _ | pruned _ _ _ | finished _ _ => exact .inl (kept opened)

theorem Step.call_cases (stepped : Step s after emitted) {b : ℕ} {call : Broadcast}
    (found : after.broadcasts b = some call) :
    (∃ before, s.broadcasts b = some before ∧ call.message = before.message ∧
      ∀ sub carried, call.hand = .carrying sub carried → before.hand = .carrying sub carried ∨
        ∃ entry, s.subs sub = some entry ∧
          entry.accepts call.message.topic call.message.recordIndex = true) ∨
    b = s.begun ∧ call.hand = .empty ∧ after = (s.begin call.message).1 := by
  have kept (was : s.broadcasts b = some call) : ∃ before, s.broadcasts b = some before ∧
      call.message = before.message ∧
      ∀ sub carried, call.hand = .carrying sub carried → before.hand = .carrying sub carried ∨
        ∃ entry, s.subs sub = some entry ∧
          entry.accepts call.message.topic call.message.recordIndex = true :=
    ⟨call, was, rfl, fun _ _ holds => .inl holds⟩
  cases stepped with
  | began message =>
      by_cases same : b = s.begun
      · obtain rfl : { message, limit := s.nextSub } = call := by
          simpa [ClientManager.begin, same] using found
        exact .inr ⟨same, rfl, rfl⟩
      · exact .inl (kept (by simpa [ClientManager.begin, same] using found))
  | @skipped other sub before entry was _ free _ _ =>
      by_cases same : b = other
      · subst same
        obtain rfl := Option.some.inj ((Function.update_self b _ s.broadcasts).symm.trans found)
        exact .inl ⟨before, was, rfl, fun _ _ holds => .inl holds⟩
      · exact .inl (kept (by simpa [same] using found))
  | @took other sub before entry was registered _ _ _ accepted =>
      by_cases same : b = other
      · subst same
        obtain rfl := Option.some.inj ((Function.update_self b _ s.broadcasts).symm.trans found)
        refine .inl ⟨before, was, rfl, fun on carried holds => .inr ⟨entry, ?_, accepted⟩⟩
        obtain ⟨rfl, -⟩ := Hand.carrying.inj holds
        exact registered
      · exact .inl (kept (by simpa [same] using found))
  | @gone other sub carried before stream was _ _ _
  | @full other sub carried before stream was _ _ _
  | @sent other sub carried before stream was _ _ _ _
  | @restored other sub amount before entry was _ _ =>
      by_cases same : b = other
      · subst same
        obtain rfl := Option.some.inj ((Function.update_self b _ s.broadcasts).symm.trans found)
        refine .inl ⟨before, was, rfl, fun on amount holds => ?_⟩
        cases holds
      · exact .inl (kept (by simpa [same] using found))
  | @iterated other before was _ _ | @pruned other sub before dead was _ _ =>
      by_cases same : b = other
      · subst same
        obtain rfl := Option.some.inj ((Function.update_self b _ s.broadcasts).symm.trans found)
        exact .inl ⟨before, was, rfl, fun _ _ holds => .inl holds⟩
      · exact .inl (kept (by simpa [same] using found))
  | @finished other before was _ =>
      by_cases same : b = other
      · simp [same] at found
      · exact .inl (kept (by simpa [same] using found))
  | subscribed _ _ | polled _ _ _ | dropped _ | receiverDropped _ _ | guardDropped _ _ _ =>
      exact .inl (kept found)

end ClientManager

end AimDb.WebSocket
