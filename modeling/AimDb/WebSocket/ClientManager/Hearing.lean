import AimDb.WebSocket.ClientManager.Flow

/-!
# How a broadcast comes to a stream

While one broadcast is under way, a stream in use waits for it, is skipped or has the
message in hand and then in its queue.
-/

namespace AimDb.WebSocket

/-- The message, while the stream may still be reached. -/
def Broadcast.offered (call : Broadcast) (sub : ℕ) : Option Message :=
  if call.iterated = false ∧ sub ∉ call.visited then some call.message else none

def Broadcast.held (call : Broadcast) (sub : ℕ) : List Message :=
  match call.hand with
  | .carrying other _ => if other = sub then [call.message] else []
  | .empty | .restoring _ _ => []

namespace ClientManager

def queued (s : ClientManager) (sub : ℕ) : List Message :=
  ((s.streams sub).map fun stream => stream.queue.map Queued.message).getD []

variable {s after : ClientManager} {emitted : List Record} {b sub : ℕ} {call : Broadcast}
  {entry : SubEntry} {stream : SubStream}

theorem held_of_hand (same : ∀ carried, call.hand ≠ .carrying sub carried) :
    call.held sub = [] := by
  unfold Broadcast.held
  cases hand : call.hand with
  | carrying other carried =>
      have different : other ≠ sub := fun isSub => same carried (isSub ▸ hand)
      simp [different]
  | _ => rfl

theorem held_carrying {carried : ℕ} (hand : call.hand = .carrying sub carried) :
    call.held sub = [call.message] := by
  simp [Broadcast.held, hand]

theorem setBroadcast_self (s : ClientManager) (b : ℕ) (call : Option Broadcast) :
    (s.setBroadcast b call).broadcasts b = call := Function.update_self ..

@[simp] theorem queued_setBroadcast (call : Option Broadcast) :
    (s.setBroadcast b call).queued sub = s.queued sub := rfl

@[simp] theorem queued_setEntry (other : ℕ) (entry : Option SubEntry) :
    (s.setEntry other entry).queued sub = s.queued sub := rfl

@[simp] theorem queued_setStream_self (stream : SubStream) :
    (s.setStream sub stream).queued sub = stream.queue.map Queued.message := by
  simp [queued]

@[simp] theorem queued_setStream_of_ne {other : ℕ} (different : sub ≠ other)
    (stream : SubStream) : (s.setStream other stream).queued sub = s.queued sub := by
  simp [queued, different]

theorem queued_of_stream (opened : s.streams sub = some stream) :
    s.queued sub = stream.queue.map Queued.message := by
  simp [queued, opened]

/-- What a step of a broadcast can mean for a stream. -/
inductive Hears (s after : ClientManager) (sub : ℕ) (entry : SubEntry)
    (call next : Broadcast) : Prop
  | same : next.offered sub = call.offered sub →
      after.queued sub ++ next.held sub = s.queued sub ++ call.held sub →
      Hears s after sub entry call next
  | heard : call.offered sub = some call.message → next.offered sub = none →
      after.queued sub ++ next.held sub = s.queued sub ++ call.held sub ++
        (if entry.accepts call.message.topic call.message.recordIndex then [call.message]
          else []) →
      Hears s after sub entry call next
  | missed : call.offered sub = some call.message → call.limit ≤ sub →
    next.offered sub = none →
      after.queued sub ++ next.held sub = s.queued sub ++ call.held sub →
      Hears s after sub entry call next

theorem Step.hears (stepped : Step s after emitted) (sound : s.Sound)
    (found : s.broadcasts b = some call)
    (only : ∀ other state, s.broadcasts other = some state → other = b)
    (opened : s.streams sub = some stream) (used : stream.dropping = false)
    (registered : s.subs sub = some entry)
    (room : ∀ next amount, after.broadcasts b = some next → next.hand ≠ .restoring sub amount)
    (goesOn : (after.broadcasts b).isSome) (unpolled : ∀ item, emitted ≠ [.yielded sub item]) :
    ∃ next, after.broadcasts b = some next ∧ next.message = call.message ∧
      next.limit = call.limit ∧ Hears s after sub entry call next := by
  have unmoved (still : after.broadcasts b = some call) (same : after.queued sub = s.queued sub) :
      ∃ next, after.broadcasts b = some next ∧ next.message = call.message ∧
        next.limit = call.limit ∧ Hears s after sub entry call next :=
    ⟨call, still, rfl, rfl, .same rfl (by rw [same])⟩
  have isCall {other : ℕ} {state : Broadcast} (was : s.broadcasts other = some state) :
      other = b ∧ state = call := by
    obtain rfl := only other state was
    exact ⟨rfl, Option.some.inj (was.symm.trans found)⟩
  cases stepped with
  | subscribed pattern recordPerms =>
      refine unmoved found ?_
      have known : sub ≠ s.nextSub := by
        rintro rfl
        rw [sound.fresh _ (Nat.le_refl _)] at opened
        cases opened
      simp [queued, ClientManager.subscribe, known]
  | began message =>
      refine unmoved ?_ rfl
      have earlier : b ≠ s.begun := by
        rintro rfl
        rw [sound.begun _ (Nat.le_refl _)] at found
        cases found
      simpa [ClientManager.begin, earlier] using found
  | @skipped other visited state passed was present free unvisited refused =>
      obtain ⟨rfl, rfl⟩ := isCall was
      refine ⟨_, setBroadcast_self .., rfl, rfl, ?_⟩
      by_cases same : sub = visited
      · subst same
        obtain rfl := Option.some.inj (present.symm.trans registered)
        by_cases done : state.iterated = true
        · refine .same ?_ rfl
          simp [Broadcast.offered, done]
        · refine .heard ?_ ?_ ?_
          · simp [Broadcast.offered, done, unvisited]
          · simp [Broadcast.offered]
          · rw [refused, if_neg Bool.false_ne_true, List.append_nil]
            rfl
      · refine .same ?_ rfl
        simp [Broadcast.offered, same]
  | @took other visited state passed was present free going unvisited accepted =>
      obtain ⟨rfl, rfl⟩ := isCall was
      refine ⟨_, setBroadcast_self .., rfl, rfl, ?_⟩
      have empty : state.held sub = [] := held_of_hand fun _ carrying => by
        rw [free] at carrying
        cases carrying
      by_cases same : sub = visited
      · subst same
        obtain rfl := Option.some.inj (present.symm.trans registered)
        refine .heard ?_ ?_ ?_
        · simp [Broadcast.offered, going, unvisited]
        · simp [Broadcast.offered]
        · rw [empty, accepted, if_pos rfl, held_carrying rfl, List.append_nil]
          rfl
      · refine .same ?_ ?_
        · simp [Broadcast.offered, same]
        · rw [empty, held_of_hand fun _ carrying => same (Hand.carrying.inj carrying).1.symm]
          rfl
  | @gone other reached carried state dropped was carrying isStream left =>
      obtain ⟨rfl, rfl⟩ := isCall was
      have different : reached ≠ sub := by
        rintro rfl
        obtain rfl := Option.some.inj (isStream.symm.trans opened)
        rw [(sound.kept _ _ opened used).2] at left
        cases left
      refine ⟨_, setBroadcast_self .., rfl, rfl, .same rfl ?_⟩
      rw [held_of_hand fun _ empty => (by cases empty), held_of_hand fun _ isSub => ?_]
      · rfl
      · rw [carrying] at isSub
        exact different (Hand.carrying.inj isSub).1
  | @full other reached carried state filled was carrying isStream _ =>
      obtain ⟨rfl, rfl⟩ := isCall was
      have different : reached ≠ sub := by
        rintro rfl
        exact room _ _ (setBroadcast_self ..) rfl
      refine ⟨_, setBroadcast_self .., rfl, rfl, .same rfl ?_⟩
      rw [held_of_hand fun _ restoring => (by cases restoring), held_of_hand fun _ isSub => ?_]
      · rfl
      · rw [carrying] at isSub
        exact different (Hand.carrying.inj isSub).1
  | @sent other reached carried state current was carrying isStream _ _ =>
      obtain ⟨rfl, rfl⟩ := isCall was
      refine ⟨_, setBroadcast_self .., rfl, rfl, .same rfl ?_⟩
      rw [held_of_hand fun _ empty => (by cases empty), List.append_nil, queued_setBroadcast]
      by_cases same : sub = reached
      · subst same
        obtain rfl := Option.some.inj (isStream.symm.trans opened)
        rw [queued_setStream_self, held_carrying carrying, queued_of_stream opened, List.map_append]
        rfl
      · rw [queued_setStream_of_ne same, held_of_hand fun _ isSub => ?_, List.append_nil]
        rw [carrying] at isSub
        exact same (Hand.carrying.inj isSub).1.symm
  | @restored other reached amount state passed was restoring _ =>
      obtain ⟨rfl, rfl⟩ := isCall was
      refine ⟨_, setBroadcast_self .., rfl, rfl, .same rfl ?_⟩
      rw [held_of_hand fun _ empty => (by cases empty), held_of_hand fun _ isSub => ?_]
      · rfl
      · rw [restoring] at isSub
        cases isSub
  | @iterated other state was free passed =>
      obtain ⟨rfl, rfl⟩ := isCall was
      refine ⟨_, setBroadcast_self .., rfl, rfl, ?_⟩
      by_cases waits : state.iterated = false ∧ sub ∉ state.visited
      · refine .missed ?_ ?_ ?_ rfl
        · simp [Broadcast.offered, waits.1, waits.2]
        · by_contra early
          exact waits.2 (passed sub (Nat.lt_of_not_le early) (by simp [registered]))
        · simp [Broadcast.offered]
      · refine .same ?_ rfl
        rw [Broadcast.offered, Broadcast.offered, if_neg waits, if_neg (by simp)]
  | @pruned other removed state dead was _ _ =>
      obtain ⟨rfl, rfl⟩ := isCall was
      exact ⟨_, setBroadcast_self .., rfl, rfl, .same rfl rfl⟩
  | @finished other state was _ =>
      obtain ⟨rfl, rfl⟩ := isCall was
      simp at goesOn
  | @polled polled current item queue isStream _ _ =>
      have different : sub ≠ polled := by
        rintro rfl
        exact unpolled item rfl
      exact unmoved found (queued_setStream_of_ne different _)
  | @dropped dropped current isStream =>
      refine unmoved found ?_
      by_cases same : sub = dropped
      · subst same
        rw [queued_setStream_self, queued_of_stream isStream]
      · exact queued_setStream_of_ne same _
  | @receiverDropped dropped current isStream leaving
  | @guardDropped dropped current isStream leaving _ =>
      have different : sub ≠ dropped := by
        rintro rfl
        obtain rfl := Option.some.inj (isStream.symm.trans opened)
        rw [used] at leaving
        cases leaving
      exact unmoved found (queued_setStream_of_ne different _)

/-- With no broadcast under way, what is queued for a stream in use waits for its poll. -/
theorem Step.queued_eq (stepped : Step s after emitted) (sound : s.Sound)
    (idle : ∀ other, s.broadcasts other = none) (opened : s.streams sub = some stream)
    (used : stream.dropping = false) (unpolled : ∀ item, emitted ≠ [.yielded sub item]) :
    after.queued sub = s.queued sub := by
  cases stepped with
  | subscribed pattern recordPerms =>
      have known : sub ≠ s.nextSub := by
        rintro rfl
        rw [sound.fresh _ (Nat.le_refl _)] at opened
        cases opened
      simp [queued, ClientManager.subscribe, known]
  | began message => rfl
  | @skipped other _ _ _ was _ _ _ _
  | @took other _ _ _ was _ _ _ _ _
  | @gone other _ _ _ _ was _ _ _
  | @full other _ _ _ _ was _ _ _
  | @sent other _ _ _ _ was _ _ _ _
  | @restored other _ _ _ _ was _ _
  | @iterated other _ was _ _
  | @pruned other _ _ _ was _ _
  | @finished other _ was _ =>
      rw [idle other] at was
      cases was
  | @polled polled current item queue isStream _ _ =>
      have different : sub ≠ polled := by
        rintro rfl
        exact unpolled item rfl
      exact queued_setStream_of_ne different _
  | @dropped dropped current isStream =>
      by_cases same : sub = dropped
      · subst same
        rw [queued_setStream_self, queued_of_stream isStream]
      · exact queued_setStream_of_ne same _
  | @receiverDropped dropped current isStream leaving
  | @guardDropped dropped current isStream leaving _ =>
      have different : sub ≠ dropped := by
        rintro rfl
        obtain rfl := Option.some.inj (isStream.symm.trans opened)
        rw [used] at leaving
        cases leaving
      exact queued_setStream_of_ne different _

end ClientManager

end AimDb.WebSocket
