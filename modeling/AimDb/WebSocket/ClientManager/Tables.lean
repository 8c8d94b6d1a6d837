import AimDb.WebSocket.ClientManager.Steps

/-!
# The tables of the bus

Entries, streams and broadcasts refer to each other.  Each kind of update of a table
keeps them consistent, and so does every step.
-/

namespace AimDb.WebSocket.ClientManager

section Setters

variable (s : ClientManager) (sub b : ℕ) (entry : Option SubEntry) (stream : SubStream)
  (call : Option Broadcast)

@[simp] theorem setEntry_subs :
    (s.setEntry sub entry).subs = Function.update s.subs sub entry := rfl
@[simp] theorem setEntry_streams : (s.setEntry sub entry).streams = s.streams := rfl
@[simp] theorem setEntry_nextSub : (s.setEntry sub entry).nextSub = s.nextSub := rfl
@[simp] theorem setEntry_broadcasts : (s.setEntry sub entry).broadcasts = s.broadcasts := rfl
@[simp] theorem setEntry_begun : (s.setEntry sub entry).begun = s.begun := rfl

@[simp] theorem setStream_subs : (s.setStream sub stream).subs = s.subs := rfl
@[simp] theorem setStream_streams :
    (s.setStream sub stream).streams = Function.update s.streams sub (some stream) := rfl
@[simp] theorem setStream_nextSub : (s.setStream sub stream).nextSub = s.nextSub := rfl
@[simp] theorem setStream_broadcasts : (s.setStream sub stream).broadcasts = s.broadcasts := rfl
@[simp] theorem setStream_begun : (s.setStream sub stream).begun = s.begun := rfl

@[simp] theorem setBroadcast_subs : (s.setBroadcast b call).subs = s.subs := rfl
@[simp] theorem setBroadcast_streams : (s.setBroadcast b call).streams = s.streams := rfl
@[simp] theorem setBroadcast_nextSub : (s.setBroadcast b call).nextSub = s.nextSub := rfl
@[simp] theorem setBroadcast_broadcasts :
    (s.setBroadcast b call).broadcasts = Function.update s.broadcasts b call := rfl
@[simp] theorem setBroadcast_begun : (s.setBroadcast b call).begun = s.begun := rfl

end Setters

/-- What holds of the tables of the bus. -/
structure Sound (s : ClientManager) : Prop where
  fresh : ∀ sub, s.nextSub ≤ sub → s.streams sub = none
  begun : ∀ b, s.begun ≤ b → s.broadcasts b = none
  guarded : ∀ sub entry, s.subs sub = some entry →
    ∃ stream, s.streams sub = some stream ∧ stream.guardGone = false
  kept : ∀ sub stream, s.streams sub = some stream → stream.dropping = false →
    (s.subs sub).isSome ∧ stream.receiverGone = false
  dead : ∀ b call, s.broadcasts b = some call → ∀ sub ∈ call.dead,
    ∃ stream, s.streams sub = some stream ∧ stream.receiverGone = true
  locked : ∀ b call, s.broadcasts b = some call → ∀ sub, call.hand.entry = some sub →
    (s.subs sub).isSome
  /-- A broadcast that has seen all entries works on none. -/
  resting : ∀ b call, s.broadcasts b = some call → call.iterated = true → call.hand = .empty

variable {s after : ClientManager} {emitted : List Record}

theorem sound_new (subCapacity : ℕ) : (new subCapacity).Sound := by
  constructor <;> simp [new]

theorem Sound.setBroadcast (sound : s.Sound) {b : ℕ} {call : Option Broadcast}
    (known : (s.broadcasts b).isSome)
    (dead : ∀ state, call = some state → ∀ sub ∈ state.dead,
      ∃ stream, s.streams sub = some stream ∧ stream.receiverGone = true)
    (locked : ∀ state, call = some state → ∀ sub, state.hand.entry = some sub →
      (s.subs sub).isSome)
    (resting : ∀ state, call = some state → state.iterated = true → state.hand = .empty) :
    (s.setBroadcast b call).Sound where
  fresh := sound.fresh
  begun := by
    intro other late
    have different : other ≠ b := by
      rintro rfl
      rw [sound.begun other late] at known
      cases known
    rw [setBroadcast_broadcasts, Function.update_of_ne different]
    exact sound.begun other late
  guarded := sound.guarded
  kept := sound.kept
  dead := by
    intro other state found
    by_cases same : other = b
    · subst same
      exact dead state (by simpa using found)
    · exact sound.dead other state (by simpa [same] using found)
  locked := by
    intro other state found
    by_cases same : other = b
    · subst same
      exact locked state (by simpa using found)
    · exact sound.locked other state (by simpa [same] using found)
  resting := by
    intro other state found
    by_cases same : other = b
    · subst same
      exact resting state (by simpa using found)
    · exact sound.resting other state (by simpa [same] using found)

theorem Sound.setEntry (sound : s.Sound) {sub : ℕ} (known : (s.subs sub).isSome)
    (entry : SubEntry) : (s.setEntry sub (some entry)).Sound := by
  have still : ∀ other, (s.subs other).isSome →
      ((s.setEntry sub (some entry)).subs other).isSome := by
    intro other registered
    by_cases same : other = sub
    · simp [same]
    · simpa [same] using registered
  refine ⟨sound.fresh, sound.begun, ?_, ?_, sound.dead, ?_, sound.resting⟩
  · intro other found isFound
    by_cases same : other = sub
    · subst same
      obtain ⟨before, registered⟩ := Option.isSome_iff_exists.mp known
      exact sound.guarded other before registered
    · exact sound.guarded other found (by simpa [same] using isFound)
  · intro other stream opened inUse
    exact ⟨still other (sound.kept other stream opened inUse).1,
      (sound.kept other stream opened inUse).2⟩
  · intro b call found other held
    exact still other (sound.locked b call found other held)

/-- An entry that no broadcast holds may go once its stream is being dropped. -/
theorem Sound.removeEntry (sound : s.Sound) {sub : ℕ} (unlocked : s.Unlocked sub)
    (leaving : ∀ stream, s.streams sub = some stream → stream.dropping = true) :
    (s.setEntry sub none).Sound := by
  have still : ∀ other, other ≠ sub → (s.subs other).isSome →
      ((s.setEntry sub none).subs other).isSome := by
    intro other different registered
    simpa [different] using registered
  refine ⟨sound.fresh, sound.begun, ?_, ?_, sound.dead, ?_, sound.resting⟩
  · intro other entry found
    by_cases same : other = sub
    · simp [same] at found
    · exact sound.guarded other entry (by simpa [same] using found)
  · intro other stream opened inUse
    have different : other ≠ sub := by
      rintro rfl
      rw [leaving stream opened] at inUse
      cases inUse
    exact ⟨still other different (sound.kept other stream opened inUse).1,
      (sound.kept other stream opened inUse).2⟩
  · intro b call found other held
    have inRange : b < s.begun := by
      by_contra late
      rw [setEntry_broadcasts, sound.begun b (Nat.le_of_not_lt late)] at found
      cases found
    have different : other ≠ sub := by
      rintro rfl
      apply unlocked b inRange
      rw [setEntry_broadcasts] at found
      simp [found, held]
    exact still other different (sound.locked b call found other held)

theorem Sound.setStream (sound : s.Sound) {sub : ℕ} {stream next : SubStream}
    (opened : s.streams sub = some stream)
    (guarding : (s.subs sub).isSome → next.guardGone = false)
    (inUse : next.dropping = false →
      stream.dropping = false ∧ next.receiverGone = stream.receiverGone)
    (gone : stream.receiverGone = true → next.receiverGone = true) :
    (s.setStream sub next).Sound := by
  refine ⟨?_, sound.begun, ?_, ?_, ?_, sound.locked, sound.resting⟩
  · intro other late
    have different : other ≠ sub := by
      rintro rfl
      rw [sound.fresh other late] at opened
      cases opened
    rw [setStream_streams, Function.update_of_ne different]
    exact sound.fresh other late
  · intro other entry found
    by_cases same : other = sub
    · subst same
      exact ⟨next, by simp, guarding (by rw [setStream_subs] at found; simp [found])⟩
    · simpa [same] using sound.guarded other entry found
  · intro other current isCurrent using'
    by_cases same : other = sub
    · subst same
      obtain rfl : next = current := by simpa using isCurrent
      obtain ⟨before, unchanged⟩ := inUse using'
      have kept := sound.kept other stream opened before
      exact ⟨kept.1, unchanged.trans kept.2⟩
    · exact sound.kept other current (by simpa [same] using isCurrent) using'
  · intro b call found other isDead
    obtain ⟨before, isBefore, receiverGone⟩ := sound.dead b call found other isDead
    by_cases same : other = sub
    · subst same
      obtain rfl : stream = before := Option.some.inj (opened.symm.trans isBefore)
      exact ⟨next, by simp, gone receiverGone⟩
    · exact ⟨before, by simpa [same] using isBefore, receiverGone⟩

theorem Sound.subscribe (sound : s.Sound) (pattern : String) (recordPerms : RecordsBits) :
    (s.subscribe pattern recordPerms).1.Sound := by
  have older {sub : ℕ} {stream : SubStream} (opened : s.streams sub = some stream) :
      sub ≠ s.nextSub := by
    rintro rfl
    rw [sound.fresh s.nextSub (Nat.le_refl _)] at opened
    cases opened
  have still {sub : ℕ} {stream : SubStream} (opened : s.streams sub = some stream) :
      (s.subscribe pattern recordPerms).1.streams sub = some stream := by
    simpa [ClientManager.subscribe, older opened] using opened
  have kept {sub : ℕ} (registered : (s.subs sub).isSome) :
      ((s.subscribe pattern recordPerms).1.subs sub).isSome := by
    by_cases same : sub = s.nextSub
    · simp [ClientManager.subscribe, same]
    · simpa [ClientManager.subscribe, same] using registered
  refine ⟨?_, sound.begun, ?_, ?_, ?_,
    fun b call found sub held => kept (sound.locked b call found sub held), sound.resting⟩
  · intro sub late
    have newer : s.nextSub < sub := late
    simpa [ClientManager.subscribe, Nat.ne_of_gt newer] using sound.fresh sub (Nat.le_of_lt newer)
  · intro sub entry found
    by_cases same : sub = s.nextSub
    · exact ⟨{}, by simp [ClientManager.subscribe, same], rfl⟩
    · obtain ⟨stream, opened, guarding⟩ :=
        sound.guarded sub entry (by simpa [ClientManager.subscribe, same] using found)
      exact ⟨stream, still opened, guarding⟩
  · intro sub stream opened inUse
    by_cases same : sub = s.nextSub
    · obtain rfl : {} = stream := by simpa [ClientManager.subscribe, same] using opened
      exact ⟨by simp [ClientManager.subscribe, same], rfl⟩
    · obtain ⟨registered, receiver⟩ :=
        sound.kept sub stream (by simpa [ClientManager.subscribe, same] using opened) inUse
      exact ⟨kept registered, receiver⟩
  · intro b call found sub isDead
    obtain ⟨stream, opened, gone⟩ := sound.dead b call found sub isDead
    exact ⟨stream, still opened, gone⟩

theorem Sound.begin (sound : s.Sound) (message : Message) : (s.begin message).1.Sound := by
  refine ⟨sound.fresh, ?_, sound.guarded, sound.kept, ?_, ?_, ?_⟩
  · intro b late
    have newer : s.begun < b := late
    simpa [ClientManager.begin, Nat.ne_of_gt newer] using sound.begun b (Nat.le_of_lt newer)
  · intro b call found
    by_cases same : b = s.begun
    · obtain rfl : { message, limit := s.nextSub } = call := by
        simpa [ClientManager.begin, same] using found
      intro sub isDead
      cases isDead
    · exact sound.dead b call (by simpa [ClientManager.begin, same] using found)
  · intro b call found
    by_cases same : b = s.begun
    · obtain rfl : { message, limit := s.nextSub } = call := by
        simpa [ClientManager.begin, same] using found
      intro sub held
      cases held
    · exact sound.locked b call (by simpa [ClientManager.begin, same] using found)
  · intro b call found
    by_cases same : b = s.begun
    · obtain rfl : { message, limit := s.nextSub } = call := by
        simpa [ClientManager.begin, same] using found
      exact fun _ => rfl
    · exact sound.resting b call (by simpa [ClientManager.begin, same] using found)

/-- A broadcast that gives its lock back and marks nobody as dead. -/
theorem Sound.release (sound : s.Sound) {b : ℕ} {call next : Broadcast}
    (found : s.broadcasts b = some call) (dead : next.dead = call.dead)
    (empty : next.hand = .empty) :
    (s.setBroadcast b (some next)).Sound := by
  refine sound.setBroadcast (by simp [found]) ?_ ?_ ?_
  · rintro state same sub isDead
    obtain rfl := Option.some.inj same
    rw [dead] at isDead
    exact sound.dead b call found sub isDead
  · rintro state same sub held
    obtain rfl := Option.some.inj same
    rw [empty] at held
    cases held
  · rintro state same _
    obtain rfl := Option.some.inj same
    exact empty

theorem Sound.hold (sound : s.Sound) {b sub : ℕ} {call next : Broadcast}
    (found : s.broadcasts b = some call) (dead : next.dead = call.dead)
    (holds : next.hand.entry = some sub) (known : (s.subs sub).isSome)
    (iterating : next.iterated = false) : (s.setBroadcast b (some next)).Sound := by
  refine sound.setBroadcast (by simp [found]) ?_ ?_ ?_
  · rintro state same other isDead
    obtain rfl := Option.some.inj same
    rw [dead] at isDead
    exact sound.dead b call found other isDead
  · rintro state same other held
    obtain rfl := Option.some.inj same
    obtain rfl := Option.some.inj (holds.symm.trans held)
    exact known
  · rintro state same iterated
    obtain rfl := Option.some.inj same
    rw [iterating] at iterated
    cases iterated

theorem Sound.iterating (sound : s.Sound) {b sub : ℕ} {call : Broadcast}
    (found : s.broadcasts b = some call) (holds : call.hand.entry = some sub) :
    call.iterated = false := by
  by_contra iterated
  rw [sound.resting b call found (by simpa using iterated)] at holds
  cases holds

theorem Sound.guarding (sound : s.Sound) {sub : ℕ} {stream : SubStream}
    (opened : s.streams sub = some stream) (registered : (s.subs sub).isSome) :
    stream.guardGone = false := by
  obtain ⟨entry, found⟩ := Option.isSome_iff_exists.mp registered
  obtain ⟨same, isSame, guards⟩ := sound.guarded sub entry found
  obtain rfl := Option.some.inj (opened.symm.trans isSame)
  exact guards

theorem Sound.step (sound : s.Sound) (stepped : Step s after emitted) : after.Sound := by
  cases stepped with
  | subscribed pattern recordPerms => exact sound.subscribe pattern recordPerms
  | began message => exact sound.begin message
  | skipped found registered free new refused => exact sound.release found rfl free
  | took found registered free iterating new accepted =>
      exact (sound.setEntry (by simp [registered]) _).hold found rfl rfl (by simp) iterating
  | gone found held opened gone =>
      refine sound.setBroadcast (by simp [found]) ?_ ?_ ?_
      · rintro state same other isDead
        obtain rfl := Option.some.inj same
        rcases List.mem_append.mp isDead with earlier | last
        · exact sound.dead _ _ found other earlier
        · rw [List.mem_singleton.mp last]
          exact ⟨_, opened, gone⟩
      · rintro state same other holds
        obtain rfl := Option.some.inj same
        cases holds
      · rintro state same _
        obtain rfl := Option.some.inj same
        rfl
  | @full b sub carried call stream found held opened full =>
      have holds : call.hand.entry = some sub := by
        rw [held]
        rfl
      have iterating := sound.iterating found holds
      exact sound.hold found rfl rfl (sound.locked b call found sub holds) iterating
  | @sent b sub carried call stream found held opened receiving room =>
      have guards := sound.guarding opened
      have queued : (s.setStream sub
          { stream with queue := stream.queue ++ [update call.message carried] }).Sound :=
        sound.setStream opened guards (fun inUse => ⟨inUse, rfl⟩) id
      exact queued.release found rfl rfl
  | restored found held registered =>
      exact (sound.setEntry (by simp [registered]) _).release found rfl rfl
  | iterated found free ended => exact sound.release found rfl free
  | @pruned b sub call dead found waiting unlocked =>
      have leaving : ∀ stream, s.streams sub = some stream → stream.dropping = true := by
        intro stream opened
        obtain ⟨closed, isClosed, gone⟩ :=
          sound.dead b call found sub (waiting ▸ List.mem_cons_self)
        obtain rfl := Option.some.inj (opened.symm.trans isClosed)
        by_contra inUse
        rw [(sound.kept sub stream opened (by simpa using inUse)).2] at gone
        cases gone
      have removed := sound.removeEntry unlocked leaving
      refine removed.setBroadcast (by simp [found]) ?_ ?_ ?_
      · rintro state same other isDead
        obtain rfl := Option.some.inj same
        exact removed.dead b call found other (waiting ▸ List.mem_cons_of_mem _ isDead)
      · rintro state same other holds
        obtain rfl := Option.some.inj same
        exact removed.locked b call found other holds
      · rintro state same
        obtain rfl := Option.some.inj same
        exact removed.resting b call found
  | finished found ended =>
      refine sound.setBroadcast (by simp [found]) ?_ ?_ ?_
      · rintro state same
        cases same
      · rintro state same
        cases same
      · rintro state same
        cases same
  | polled opened inUse queued =>
      have guards := sound.guarding opened
      exact sound.setStream opened guards (fun inUse => ⟨inUse, rfl⟩) id
  | dropped opened =>
      have guards := sound.guarding opened
      exact sound.setStream opened guards (fun inUse => by cases inUse) id
  | receiverDropped opened leaving =>
      have guards := sound.guarding opened
      refine sound.setStream opened guards (fun inUse => ?_) fun _ => rfl
      rw [leaving] at inUse
      cases inUse
  | @guardDropped sub stream opened leaving unlocked =>
      have removed := sound.removeEntry unlocked fun other isOther => by
        obtain rfl := Option.some.inj (opened.symm.trans isOther)
        exact leaving
      refine removed.setStream opened (fun registered => ?_) (fun inUse => ?_) id
      · simp at registered
      · rw [leaving] at inUse
        cases inUse

end AimDb.WebSocket.ClientManager
