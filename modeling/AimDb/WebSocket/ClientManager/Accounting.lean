import AimDb.WebSocket.ClientManager.Tables
import Mathlib.Algebra.BigOperators.Group.Finset.Basic
import Mathlib.Algebra.Group.Nat.Defs
import Mathlib.Algebra.Order.Group.Nat

/-!
# Every broadcast is accounted for

Each broadcast that reaches a live subscription is one update yielded or queued, or it
is counted: in the entry, in a later update, or in the hand of a broadcast that took the
count.
-/

namespace AimDb.WebSocket

/-- What a hand holds of a subscription: its own update and the count it took. -/
def Hand.held (sub : ℕ) : Hand → ℕ
  | .empty => 0
  | .carrying other carried => if other = sub then carried + 1 else 0
  | .restoring other amount => if other = sub then amount else 0

theorem Hand.held_eq_zero {hand : Hand} {sub : ℕ} (other : hand.entry ≠ some sub) :
    hand.held sub = 0 := by
  cases hand with
  | empty => rfl
  | carrying on carried => exact if_neg fun same => other (congrArg some same)
  | restoring on amount => exact if_neg fun same => other (congrArg some same)

namespace ClientManager

open Transition

variable {s after : ClientManager} {emitted : List Record}

def Record.reaches (sub : ℕ) (entry : SubEntry) : Record → Bool
  | .reached _ other message => other = sub && entry.accepts message.topic message.recordIndex
  | .subscribed _ _ _ | .yielded _ _ => false

def Record.yieldedTo (sub : ℕ) : Record → Option Queued
  | .yielded other item => if other = sub then some item else none
  | .subscribed _ _ _ | .reached _ _ _ => none

def Record.sub : Record → ℕ
  | .subscribed sub _ _ | .reached _ sub _ | .yielded sub _ => sub

def Record.pair : Record → Option (ℕ × ℕ)
  | .reached b sub _ => some (b, sub)
  | .subscribed _ _ _ | .yielded _ _ => none

def weight (items : List Queued) : ℕ := (items.map fun item => 1 + item.update.skipped).sum

/-- What broadcasts under way hold of a subscription. -/
def held (s : ClientManager) (sub : ℕ) : ℕ :=
  ∑ b ∈ Finset.range s.begun, ((s.broadcasts b).elim 0 fun call => call.hand.held sub)

theorem weight_append (front back : List Queued) :
    weight (front ++ back) = weight front + weight back := by
  simp [weight]

theorem held_setBroadcast {b : ℕ} {call : Broadcast} (begun : b < s.begun)
    (found : s.broadcasts b = some call) (next : Option Broadcast) (sub : ℕ) :
    (s.setBroadcast b next).held sub + call.hand.held sub =
      s.held sub + next.elim 0 fun call => call.hand.held sub := by
  have inRange : b ∈ Finset.range s.begun := Finset.mem_range.mpr begun
  have before := Finset.add_sum_erase (Finset.range s.begun)
    (fun b => (s.broadcasts b).elim 0 fun call => call.hand.held sub) inRange
  have after := Finset.add_sum_erase (Finset.range s.begun)
    (fun other => (Function.update s.broadcasts b next other).elim 0 fun call =>
      call.hand.held sub) inRange
  have rest : ∑ other ∈ (Finset.range s.begun).erase b,
      ((Function.update s.broadcasts b next other).elim 0 fun call => call.hand.held sub) =
      ∑ other ∈ (Finset.range s.begun).erase b,
        ((s.broadcasts other).elim 0 fun call => call.hand.held sub) := by
    apply Finset.sum_congr rfl
    intro other inside
    rw [Function.update_of_ne (Finset.ne_of_mem_erase inside)]
  rw [rest, Function.update_self] at after
  rw [found] at before
  rw [held, held, setBroadcast_begun, setBroadcast_broadcasts, ← before, ← after]
  simp only [Option.elim_some]
  omega

/-- What the state still owes a subscription: updates queued, counted or in hands. -/
def owed (s : ClientManager) (sub : ℕ) (stream : SubStream) (entry : SubEntry) : ℕ :=
  weight stream.queue + entry.dropped + s.held sub

/-- Broadcasts that reached a live subscription it is for were yielded or are owed. -/
def Balanced (s : ClientManager) (log : List Record) : Prop :=
  ∀ sub stream entry, s.streams sub = some stream → stream.dropping = false →
    s.subs sub = some entry →
    weight (log.filterMap (Record.yieldedTo sub)) + s.owed sub stream entry =
      log.countP (Record.reaches sub entry)

theorem Balanced.of_moves {log : List Record} (balanced : Balanced s log)
    (moves : ∀ sub stream entry, after.streams sub = some stream → stream.dropping = false →
      after.subs sub = some entry → ∃ before old, s.streams sub = some before ∧
        before.dropping = false ∧ s.subs sub = some old ∧ old.pattern = entry.pattern ∧
        old.recordPerms = entry.recordPerms ∧
        weight (emitted.filterMap (Record.yieldedTo sub)) + after.owed sub stream entry =
          s.owed sub before old + emitted.countP (Record.reaches sub entry)) :
    Balanced after (log ++ emitted) := by
  intro sub stream entry opened inUse registered
  obtain ⟨before, old, wasOpen, wasInUse, wasRegistered, pattern, perms, moved⟩ :=
    moves sub stream entry opened inUse registered
  have account := balanced sub before old wasOpen wasInUse wasRegistered
  have reaches : Record.reaches sub entry = Record.reaches sub old := by
    funext record
    cases record <;> simp [Record.reaches, SubEntry.accepts, pattern, perms]
  rw [reaches] at moved ⊢
  rw [List.filterMap_append, weight_append, List.countP_append, ← account]
  omega

theorem Sound.inRange (sound : s.Sound) {b : ℕ} {call : Broadcast}
    (found : s.broadcasts b = some call) : b < s.begun := by
  by_contra late
  rw [sound.begun b (Nat.le_of_not_lt late)] at found
  cases found

theorem Balanced.of_hand {log : List Record} (balanced : Balanced s log) {b : ℕ}
    {call : Broadcast} {next : Option Broadcast} (begun : b < s.begun)
    (found : s.broadcasts b = some call)
    (quiet : ∀ sub entry, s.subs sub = some entry →
      emitted.filterMap (Record.yieldedTo sub) = [] ∧
        emitted.countP (Record.reaches sub entry) = 0)
    (holds : ∀ sub stream, s.streams sub = some stream → stream.dropping = false →
      (next.elim 0 fun next => next.hand.held sub) = call.hand.held sub) :
    Balanced (s.setBroadcast b next) (log ++ emitted) := by
  refine balanced.of_moves fun sub stream entry opened inUse registered =>
    ⟨stream, entry, opened, inUse, registered, rfl, rfl, ?_⟩
  have moved := held_setBroadcast begun found next sub
  rw [holds sub stream opened inUse] at moved
  obtain ⟨none, zero⟩ := quiet sub entry registered
  rw [none, zero, owed, owed]
  simp only [weight, List.map_nil, List.sum_nil]
  omega

theorem Balanced.of_stream {log : List Record} (balanced : Balanced s log) {sub : ℕ}
    {stream next : SubStream} (opened : s.streams sub = some stream)
    (yields : ∀ other ≠ sub, emitted.filterMap (Record.yieldedTo other) = [])
    (reaches : ∀ other entry, emitted.countP (Record.reaches other entry) = 0)
    (moves : next.dropping = false → stream.dropping = false ∧
      weight (emitted.filterMap (Record.yieldedTo sub)) + weight next.queue =
        weight stream.queue) :
    Balanced (s.setStream sub next) (log ++ emitted) := by
  refine balanced.of_moves fun other current entry isCurrent inUse registered => ?_
  by_cases same : other = sub
  · subst same
    obtain rfl : next = current := by simpa using isCurrent
    obtain ⟨wasInUse, moved⟩ := moves inUse
    refine ⟨stream, entry, opened, wasInUse, registered, rfl, rfl, ?_⟩
    have sameHeld : (s.setStream other next).held other = s.held other := rfl
    rw [reaches, owed, owed, sameHeld]
    omega
  · refine ⟨current, entry, by simpa [same] using isCurrent, inUse, registered, rfl, rfl, ?_⟩
    have sameHeld : (s.setStream sub next).held other = s.held other := rfl
    rw [reaches, yields other same, owed, owed, sameHeld]
    simp [weight]

theorem Balanced.of_entry {log : List Record} (balanced : Balanced s log) (sound : s.Sound)
    {b sub : ℕ} {call next : Broadcast} {entry changed : SubEntry}
    (found : s.broadcasts b = some call) (registered : s.subs sub = some entry)
    (pattern : changed.pattern = entry.pattern) (perms : changed.recordPerms = entry.recordPerms)
    (yields : ∀ other, emitted.filterMap (Record.yieldedTo other) = [])
    (others : ∀ other ≠ sub, next.hand.held other = call.hand.held other)
    (reachesOthers : ∀ other ≠ sub, ∀ entry, emitted.countP (Record.reaches other entry) = 0)
    (moves : changed.dropped + next.hand.held sub =
      entry.dropped + call.hand.held sub + emitted.countP (Record.reaches sub changed)) :
    Balanced ((s.setEntry sub (some changed)).setBroadcast b (some next)) (log ++ emitted) := by
  refine balanced.of_moves fun other stream current opened inUse isCurrent => ?_
  have moved : ((s.setEntry sub (some changed)).setBroadcast b (some next)).held other +
      call.hand.held other = s.held other + next.hand.held other :=
    held_setBroadcast (sound.inRange found) found (some next) other
  by_cases same : other = sub
  · subst same
    obtain rfl : changed = current := by simpa using isCurrent
    refine ⟨stream, entry, opened, inUse, registered, pattern.symm, perms.symm, ?_⟩
    rw [yields, owed, owed]
    simp only [weight, List.map_nil, List.sum_nil]
    omega
  · refine ⟨stream, current, opened, inUse, by simpa [same] using isCurrent, rfl, rfl, ?_⟩
    rw [others other same] at moved
    rw [yields, reachesOthers other same, owed, owed]
    simp only [weight, List.map_nil, List.sum_nil]
    omega

theorem Balanced.of_removal {log : List Record} (balanced : Balanced s log) (sub : ℕ) :
    Balanced (s.setEntry sub none) (log ++ []) := by
  refine balanced.of_moves fun other stream entry opened inUse registered => ?_
  by_cases same : other = sub
  · simp [same] at registered
  · have sameHeld : (s.setEntry sub none).held other = s.held other := rfl
    refine ⟨stream, entry, opened, inUse, by simpa [same] using registered, rfl, rfl, ?_⟩
    rw [owed, owed, sameHeld]
    simp [weight]

def Known (s : ClientManager) (log : List Record) : Prop :=
  ∀ record ∈ log, record.sub < s.nextSub

theorem Known.silent {log : List Record} (known : Known s log) {sub : ℕ}
    (fresh : s.nextSub ≤ sub) : log.filterMap (Record.yieldedTo sub) = [] ∧
      ∀ entry, log.countP (Record.reaches sub entry) = 0 := by
  have other : ∀ record ∈ log, record.sub ≠ sub := fun record mem =>
    Nat.ne_of_lt (Nat.lt_of_lt_of_le (known record mem) fresh)
  constructor
  · apply List.filterMap_eq_nil_iff.mpr
    intro record mem
    cases record with
    | yielded on item => exact if_neg (other _ mem)
    | _ => rfl
  · intro entry
    apply List.countP_eq_zero.mpr
    intro record mem
    cases record with
    | reached b on message =>
        have different : on ≠ sub := other _ mem
        simp [Record.reaches, different]
    | _ => simp [Record.reaches]

theorem Sound.lt_nextSub (sound : s.Sound) {sub : ℕ} {stream : SubStream}
    (opened : s.streams sub = some stream) : sub < s.nextSub := by
  by_contra late
  rw [sound.fresh sub (Nat.le_of_not_lt late)] at opened
  cases opened

theorem Sound.entry_lt_nextSub (sound : s.Sound) {sub : ℕ} {entry : SubEntry}
    (registered : s.subs sub = some entry) : sub < s.nextSub := by
  obtain ⟨stream, opened, _⟩ := sound.guarded sub entry registered
  exact sound.lt_nextSub opened

theorem Known.step {log : List Record} (known : Known s log) (sound : s.Sound)
    (stepped : Step s after emitted) : Known after (log ++ emitted) := by
  have grows : s.nextSub ≤ after.nextSub := by
    cases stepped with
    | subscribed pattern recordPerms => exact Nat.le_succ _
    | _ => exact Nat.le_refl _
  intro record mem
  rcases List.mem_append.mp mem with earlier | now
  · exact Nat.lt_of_lt_of_le (known record earlier) grows
  · cases stepped with
    | subscribed pattern recordPerms =>
        rw [List.mem_singleton.mp now]
        exact Nat.lt_succ_self _
    | skipped found registered free new refused =>
        rw [List.mem_singleton.mp now]
        exact sound.entry_lt_nextSub registered
    | took found registered free iterating new accepted =>
        rw [List.mem_singleton.mp now]
        exact sound.entry_lt_nextSub registered
    | polled opened inUse queued =>
        rw [List.mem_singleton.mp now]
        exact sound.lt_nextSub opened
    | _ => cases now

theorem Sound.held_fresh (sound : s.Sound) {sub : ℕ} (fresh : s.nextSub ≤ sub) :
    s.held sub = 0 := by
  apply Finset.sum_eq_zero
  intro b _
  cases found : s.broadcasts b with
  | none => rfl
  | some call =>
      apply Hand.held_eq_zero
      intro holds
      obtain ⟨entry, registered⟩ :=
        Option.isSome_iff_exists.mp (sound.locked b call found sub holds)
      obtain ⟨stream, opened, _⟩ := sound.guarded sub entry registered
      rw [sound.fresh sub fresh] at opened
      cases opened

theorem Balanced.subscribe {log : List Record} (balanced : Balanced s log) (sound : s.Sound)
    (known : Known s log) (pattern : String) (recordPerms : RecordsBits) :
    Balanced (s.subscribe pattern recordPerms).1
      (log ++ (s.subscribe pattern recordPerms).2) := by
  intro sub stream entry opened inUse registered
  have silent : (log ++ (s.subscribe pattern recordPerms).2).filterMap (Record.yieldedTo sub) =
      log.filterMap (Record.yieldedTo sub) := by
    simp [ClientManager.subscribe, Record.yieldedTo]
  have unreached : (log ++ (s.subscribe pattern recordPerms).2).countP (Record.reaches sub entry) =
      log.countP (Record.reaches sub entry) := by
    simp [ClientManager.subscribe, Record.reaches]
  have sameHeld : (s.subscribe pattern recordPerms).1.held sub = s.held sub := rfl
  rw [silent, unreached, owed, sameHeld]
  by_cases same : sub = s.nextSub
  · subst same
    obtain rfl : {} = stream := by simpa [ClientManager.subscribe] using opened
    obtain rfl : { pattern, recordPerms } = entry := by
      simpa [ClientManager.subscribe] using registered
    obtain ⟨none, zero⟩ := known.silent (Nat.le_refl s.nextSub)
    rw [none, zero, sound.held_fresh (Nat.le_refl _)]
    rfl
  · exact balanced sub stream entry (by simpa [ClientManager.subscribe, same] using opened) inUse
      (by simpa [ClientManager.subscribe, same] using registered)

theorem Balanced.begin {log : List Record} (balanced : Balanced s log) (message : Message) :
    Balanced (s.begin message).1 (log ++ []) := by
  refine balanced.of_moves fun sub stream entry opened inUse registered =>
    ⟨stream, entry, opened, inUse, registered, rfl, rfl, ?_⟩
  have sameHeld : (s.begin message).1.held sub = s.held sub := by
    rw [held, held]
    simp only [ClientManager.begin, setBroadcast_broadcasts, Finset.sum_range_succ,
      Function.update_self, Option.elim_some, Hand.held, Nat.add_zero]
    apply Finset.sum_congr rfl
    intro b inside
    rw [Function.update_of_ne (Nat.ne_of_lt (Finset.mem_range.mp inside))]
  rw [owed, owed, sameHeld]
  simp [weight]

theorem Balanced.sent {log : List Record} (balanced : Balanced s log) (sound : s.Sound)
    {b sub carried : ℕ} {call : Broadcast} {stream : SubStream}
    (found : s.broadcasts b = some call) (holds : call.hand = .carrying sub carried)
    (opened : s.streams sub = some stream) :
    Balanced ((s.setStream sub
      { stream with queue := stream.queue ++ [update call.message carried] }).setBroadcast b
        (some { call with hand := .empty })) (log ++ []) := by
  refine balanced.of_moves fun other current entry isCurrent inUse registered => ?_
  have moved : ((s.setStream sub { stream with
        queue := stream.queue ++ [update call.message carried] }).setBroadcast b
        (some { call with hand := .empty })).held other + call.hand.held other =
      s.held other + 0 :=
    held_setBroadcast (sound.inRange found) found (some { call with hand := .empty }) other
  rw [holds] at moved
  by_cases same : other = sub
  · subst same
    obtain rfl : { stream with queue := stream.queue ++ [update call.message carried] } = current :=
      by simpa using isCurrent
    refine ⟨stream, entry, opened, inUse, registered, rfl, rfl, ?_⟩
    have one : weight [update call.message carried] = carried + 1 := by
      rw [Nat.add_comm]
      rfl
    simp only [Hand.held, if_true] at moved
    rw [owed, owed, weight_append, one]
    simp only [weight, List.filterMap_nil, List.map_nil, List.sum_nil, List.countP_nil]
    omega
  · refine ⟨current, entry, by simpa [same] using isCurrent, inUse, registered, rfl, rfl, ?_⟩
    simp only [Hand.held, if_neg (Ne.symm same)] at moved
    rw [owed, owed]
    simp only [weight, List.filterMap_nil, List.map_nil, List.sum_nil, List.countP_nil]
    omega

theorem Balanced.step {log : List Record} (balanced : Balanced s log) (sound : s.Sound)
    (known : Known s log) (stepped : Step s after emitted) : Balanced after (log ++ emitted) := by
  cases stepped with
  | subscribed pattern recordPerms => exact balanced.subscribe sound known pattern recordPerms
  | began message => exact balanced.begin message
  | @skipped b sub call entry found registered free new refused =>
      refine balanced.of_hand (sound.inRange found) found ?_ fun _ _ _ _ => rfl
      intro other current isCurrent
      refine ⟨rfl, ?_⟩
      rw [List.countP_singleton]
      by_cases same : sub = other
      · subst same
        obtain rfl := Option.some.inj (registered.symm.trans isCurrent)
        simp [Record.reaches, refused]
      · simp [Record.reaches, same]
  | @took b sub call entry found registered free iterating new accepted =>
      refine balanced.of_entry sound found registered rfl rfl (fun _ => rfl) ?_ ?_ ?_
      · intro other different
        simp [Hand.held, free, Ne.symm different]
      · intro other different current
        simp [Record.reaches, Ne.symm different]
      · have reaches : Record.reaches sub { entry with dropped := 0 }
          (.reached b sub call.message) =
            true := by
          simpa [Record.reaches, SubEntry.accepts] using accepted
        rw [List.countP_singleton, reaches, free]
        simp [Hand.held]
  | @gone b sub carried call stream found holds opened gone =>
      refine balanced.of_hand (sound.inRange found) found (fun _ _ _ => ⟨rfl, rfl⟩)
        fun other current isCurrent inUse => ?_
      have different : sub ≠ other := by
        rintro rfl
        obtain rfl := Option.some.inj (opened.symm.trans isCurrent)
        rw [(sound.kept sub stream opened inUse).2] at gone
        cases gone
      simp [Hand.held, holds, different]
  | full found holds opened full =>
      refine balanced.of_hand (sound.inRange found) found (fun _ _ _ => ⟨rfl, rfl⟩)
        fun other current isCurrent inUse => ?_
      simp [Hand.held, holds]
  | sent found holds opened receiving room => exact balanced.sent sound found holds opened
  | @restored b sub amount call entry found holds registered =>
      refine balanced.of_entry sound found registered rfl rfl (fun _ => rfl) ?_
        (fun _ _ _ => rfl) ?_
      · intro other different
        simp [Hand.held, holds, Ne.symm different]
      · simp [Hand.held, holds]
  | iterated found free ended =>
      exact balanced.of_hand (sound.inRange found) found (fun _ _ _ => ⟨rfl, rfl⟩)
        fun other current isCurrent inUse => rfl
  | @pruned b sub call dead found waiting unlocked =>
      have removed := balanced.of_removal sub
      rw [List.append_nil] at removed
      exact removed.of_hand (sound.inRange found) found (fun _ _ _ => ⟨rfl, rfl⟩)
        fun _ _ _ _ => rfl
  | @finished b call found ended =>
      refine balanced.of_hand (sound.inRange found) found (fun _ _ _ => ⟨rfl, rfl⟩)
        fun other current isCurrent inUse => ?_
      rw [sound.resting b call found ended]
      rfl
  | @polled sub stream item queue opened inUse queued =>
      refine balanced.of_stream opened ?_ (fun _ _ => rfl) fun _ => ⟨inUse, ?_⟩
      · intro other different
        simp [Record.yieldedTo, Ne.symm different]
      · simp [Record.yieldedTo, weight, queued]
  | dropped opened =>
      refine balanced.of_stream opened (fun _ _ => rfl) (fun _ _ => rfl) fun inUse => ?_
      cases inUse
  | receiverDropped opened leaving =>
      refine balanced.of_stream opened (fun _ _ => rfl) (fun _ _ => rfl) fun inUse => ?_
      rw [leaving] at inUse
      cases inUse
  | @guardDropped sub stream opened leaving unlocked =>
      have removed := balanced.of_removal sub
      rw [List.append_nil] at removed
      refine removed.of_stream opened (fun _ _ => rfl) (fun _ _ => rfl) fun inUse => ?_
      rw [leaving] at inUse
      cases inUse

/-- A broadcast remembers whom it reached. -/
structure Once (s : ClientManager) (log : List Record) : Prop where
  nodup : (log.filterMap Record.pair).Nodup
  visited : ∀ b sub, (b, sub) ∈ log.filterMap Record.pair →
    b < s.begun ∧ ∀ call, s.broadcasts b = some call → sub ∈ call.visited

theorem Once.of_quiet {log : List Record} (once : Once s log)
    (quiet : emitted.filterMap Record.pair = []) (begun : s.begun ≤ after.begun)
    (remembers : ∀ b call, b < s.begun → after.broadcasts b = some call →
      ∃ before, s.broadcasts b = some before ∧ before.visited = call.visited) :
    Once after (log ++ emitted) := by
  have same : (log ++ emitted).filterMap Record.pair = log.filterMap Record.pair := by
    rw [List.filterMap_append, quiet, List.append_nil]
  constructor
  · rw [same]
    exact once.nodup
  · intro b sub mem
    rw [same] at mem
    obtain ⟨early, visited⟩ := once.visited b sub mem
    refine ⟨Nat.lt_of_lt_of_le early begun, fun call found => ?_⟩
    obtain ⟨before, wasFound, sameVisited⟩ := remembers b call early found
    rw [← sameVisited]
    exact visited before wasFound

theorem Once.of_broadcast {log : List Record} (once : Once s log) {b : ℕ} {call : Broadcast}
    (found : s.broadcasts b = some call) (quiet : emitted.filterMap Record.pair = [])
    (begun : after.begun = s.begun) {next : Option Broadcast}
    (moved : after.broadcasts = Function.update s.broadcasts b next)
    (same : ∀ state, next = some state → call.visited = state.visited) :
    Once after (log ++ emitted) := by
  refine once.of_quiet quiet (Nat.le_of_eq begun.symm) fun other state _ isState => ?_
  rw [moved] at isState
  by_cases isSame : other = b
  · subst isSame
    exact ⟨call, found, same state (by simpa using isState)⟩
  · exact ⟨state, by simpa [isSame] using isState, rfl⟩

theorem Once.of_reached {log : List Record} (once : Once s log) (sound : s.Sound) {b sub : ℕ}
    {call next : Broadcast} (found : s.broadcasts b = some call) (new : sub ∉ call.visited)
    (begun : after.begun = s.begun)
    (moved : after.broadcasts = Function.update s.broadcasts b (some next))
    (remembers : next.visited = sub :: call.visited) (message : Message) :
    Once after (log ++ [.reached b sub message]) := by
  have grown : (log ++ [Record.reached b sub message]).filterMap Record.pair =
      log.filterMap Record.pair ++ [(b, sub)] := by
    simp [Record.pair]
  constructor
  · rw [grown]
    refine List.nodup_append.mpr ⟨once.nodup, List.nodup_singleton _, ?_⟩
    rintro pair earlier same isSame rfl
    rw [List.mem_singleton.mp isSame] at earlier
    exact new ((once.visited b sub earlier).2 call found)
  · intro other on mem
    rw [grown] at mem
    rw [moved, begun]
    have visits : other < s.begun ∧ ∀ state, s.broadcasts other = some state →
        (other, on) ≠ (b, sub) → on ∈ state.visited := by
      rcases List.mem_append.mp mem with earlier | now
      · obtain ⟨early, visited⟩ := once.visited other on earlier
        exact ⟨early, fun state isState _ => visited state isState⟩
      · obtain ⟨rfl, rfl⟩ := Prod.mk.inj (List.mem_singleton.mp now)
        exact ⟨sound.inRange found, fun _ _ different => absurd rfl different⟩
    refine ⟨visits.1, fun state isState => ?_⟩
    by_cases isSame : other = b
    · subst isSame
      obtain rfl : next = state := by simpa using isState
      rw [remembers]
      by_cases isSub : on = sub
      · exact isSub ▸ List.mem_cons_self
      · exact List.mem_cons_of_mem _ (visits.2 call found (by simp [isSub]))
    · exact visits.2 state (by simpa [isSame] using isState) (by simp [isSame])

theorem Once.step {log : List Record} (once : Once s log) (sound : s.Sound)
    (stepped : Step s after emitted) : Once after (log ++ emitted) := by
  cases stepped with
  | subscribed pattern recordPerms =>
      exact once.of_quiet rfl (Nat.le_refl _) fun b call _ found => ⟨call, found, rfl⟩
  | began message =>
      refine once.of_quiet rfl (Nat.le_succ _) fun b call early found => ⟨call, ?_, rfl⟩
      simpa [ClientManager.begin, Nat.ne_of_lt early] using found
  | skipped found registered free new refused =>
      apply once.of_reached sound found new
      · rfl
      · rfl
      · rfl
  | took found registered free iterating new accepted =>
      apply once.of_reached sound found new
      · rfl
      · rfl
      · rfl
  | gone found _ _ _ | full found _ _ _ | sent found _ _ _ _ | restored found _ _
  | iterated found _ _ | pruned found _ _ =>
      refine once.of_broadcast found rfl rfl rfl ?_
      rintro state same
      obtain rfl := Option.some.inj same
      rfl
  | finished found ended =>
      refine once.of_broadcast found rfl rfl rfl ?_
      rintro state same
      cases same
  | polled _ _ _ | dropped _ | receiverDropped _ _ | guardDropped _ _ _ =>
      exact once.of_quiet rfl (Nat.le_refl _) fun b call _ found => ⟨call, found, rfl⟩

/-- An entry keeps the pattern and the mask it was registered with. -/
def Registered (s : ClientManager) (log : List Record) : Prop :=
  ∀ sub entry, s.subs sub = some entry →
    .subscribed sub entry.pattern entry.recordPerms ∈ log

theorem Registered.step {log : List Record} (registered : Registered s log)
    (stepped : Step s after emitted) : Registered after (log ++ emitted) := by
  have kept {sub : ℕ} {entry : SubEntry} (was : s.subs sub = some entry) :
      .subscribed sub entry.pattern entry.recordPerms ∈ log ++ emitted :=
    List.mem_append_left _ (registered sub entry was)
  intro other current found
  cases stepped with
  | subscribed pattern recordPerms =>
      by_cases same : other = s.nextSub
      · subst same
        obtain rfl : { pattern, recordPerms } = current := by
          simpa [ClientManager.subscribe] using found
        exact List.mem_append_right _ List.mem_cons_self
      · exact kept (by simpa [ClientManager.subscribe, same] using found)
  | @took b sub call entry _ was _ _ _ _ | @restored b sub amount call entry _ _ was =>
      by_cases same : other = sub
      · subst same
        obtain rfl := Option.some.inj ((Function.update_self other _ s.subs).symm.trans found)
        have registeredAs := kept was
        exact registeredAs
      · exact kept (by simpa [same] using found)
  | @pruned b sub call dead _ _ _ | @guardDropped sub stream _ _ _ =>
      by_cases same : other = sub
      · simp [same] at found
      · exact kept (by simpa [same] using found)
  | began _ | skipped _ _ _ _ _ | gone _ _ _ _ | full _ _ _ _ | sent _ _ _ _ _ | iterated _ _ _
  | finished _ _ | polled _ _ _ | dropped _ | receiverDropped _ _ => exact kept found

structure Accounts (s : ClientManager) (log : List Record) : Prop where
  /-- A stream in use has its entry, as it subscribed, and the broadcasts that reached it
  and are for it are the updates yielded or queued, each with those it skipped, those
  counted as dropped, and those in the hands of broadcasts. -/
  live : ∀ sub stream, s.streams sub = some stream → stream.dropping = false →
    ∃ entry, s.subs sub = some entry ∧
      .subscribed sub entry.pattern entry.recordPerms ∈ log ∧
      weight (log.filterMap (Record.yieldedTo sub)) + weight stream.queue + entry.dropped +
          s.held sub = log.countP (Record.reaches sub entry)
  once : (log.filterMap Record.pair).Nodup
  removed : ∀ sub stream, s.streams sub = some stream → stream.guardGone = true →
    s.subs sub = none

structure Invariant (s : ClientManager) (log : List Record) : Prop where
  sound : s.Sound
  known : Known s log
  balanced : Balanced s log
  once : Once s log
  registered : Registered s log

theorem invariant_new (subCapacity : ℕ) : Invariant (new subCapacity) [] where
  sound := sound_new subCapacity
  known := by simp [Known]
  balanced := by
    intro sub stream entry opened
    simp [new] at opened
  once := ⟨by simp, by simp⟩
  registered := by
    intro sub entry found
    simp [new] at found

theorem invariant_of_reachable {subCapacity : ℕ} {s : ClientManager} {log : List Record}
    (reached : Reachable step (new subCapacity) s log) : Invariant s log := by
  refine reached.invariant Invariant (invariant_new subCapacity) ?_
  intro s log input after emitted _ _ stepped holds
  have moved := Step.of_step stepped
  exact ⟨holds.sound.step moved, holds.known.step holds.sound moved,
    holds.balanced.step holds.sound holds.known moved, holds.once.step holds.sound moved,
    holds.registered.step moved⟩

/-- Whatever broadcasts, polls, subscribes and drops overlap, the bus keeps its promise. -/
theorem skippedAccounted {subCapacity : ℕ} {s : ClientManager} {log : List Record}
    (reached : Reachable step (new subCapacity) s log) : Accounts s log := by
  have holds := invariant_of_reachable reached
  refine ⟨fun sub stream opened inUse => ?_, holds.once.nodup, fun sub stream opened gone => ?_⟩
  · obtain ⟨entry, found⟩ :=
      Option.isSome_iff_exists.mp (holds.sound.kept sub stream opened inUse).1
    refine ⟨entry, found, holds.registered sub entry found, ?_⟩
    rw [← holds.balanced sub stream entry opened inUse found, owed]
    omega
  · cases found : s.subs sub with
    | none => rfl
    | some entry =>
        rw [holds.sound.guarding opened (by simp [found])] at gone
        cases gone

/-- Two broadcasts on a full channel: the second takes the count before the first
restores it. -/
def overlap : List Input :=
  [.subscribe "#" ((RecordsBits.new 1).set 0),
    .broadcast ⟨"t", 0, [49], 0⟩, .visit 0 1, .trySend 0,
    .broadcast ⟨"t", 0, [50], 0⟩, .broadcast ⟨"t", 0, [51], 0⟩, .visit 1 1, .visit 2 1,
    .trySend 1, .poll 1, .trySend 2, .restore 1]

def overlapped : ClientManager × List Record := (replay step (new 0) overlap).getD (new 0, [])

theorem overlap_replayed : replay step (new 0) overlap = some overlapped := rfl

theorem skippedAccounted_overlapped : Accounts overlapped.1 overlapped.2 :=
  skippedAccounted (reachable_of_replay overlap_replayed)

end ClientManager

end AimDb.WebSocket
