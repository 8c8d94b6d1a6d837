import AimDb.Session.Aimx.Codec
import AimDb.Session.Server.Steps

/-!
# The subscription table

The entries of `cancels` and the pumps of `subs` are edited in five places and
still stand for the same subscriptions.  A pump's ticket is the entry it was
registered under; the table invariant compares entries with tickets.
-/

namespace AimDb.Session.Server

open AimDb.Json AimDb.Session.Aimx AimDb.Transition

variable {codec : EnvelopeCodec} {config : SessionConfig} {s : State}

def Pump.ticket (pump : Pump) : String × CancelHandle :=
  (pump.subId, ⟨pump.generation, pump.cancel⟩)

def State.tickets (s : State) : List (String × CancelHandle) := s.subs.map Pump.ticket

/-- Entries are tickets of pumps, and no two pumps share a generation or a channel. -/
structure Table (config : SessionConfig) (s : State) : Prop where
  capped : s.cancels.entries.length ≤ config.limits.maxSubsPerConnection
  owned : ∀ {sub handle}, s.cancels.lookup sub = some handle → (sub, handle) ∈ s.tickets
  generations : (s.tickets.map fun ticket => ticket.2.generation).Nodup
  senders : (s.tickets.map fun ticket => ticket.2.sender).Nodup
  generation_lt : ∀ ticket ∈ s.tickets, ticket.2.generation < s.nextGeneration
  sender_lt : ∀ ticket ∈ s.tickets, ticket.2.sender < s.channels

theorem cancelled_eq_false_iff {cancels : Cancels} {pump : Pump} :
    pump.cancelled cancels = false ↔
      ∃ sub handle, cancels.lookup sub = some handle ∧ handle.sender = pump.cancel := by
  simp only [Pump.cancelled, List.all_eq_false, decide_eq_true_eq, not_not, Sigma.exists]
  constructor
  · rintro ⟨sub, handle, entry, same⟩
    exact ⟨sub, handle, AList.mem_lookup_iff.mpr entry, same⟩
  · rintro ⟨sub, handle, found, same⟩
    exact ⟨sub, handle, AList.mem_lookup_iff.mp found, same⟩

theorem owns_iff {cancels : Cancels} {pump : Pump} :
    pump.owns cancels = true ↔
      ∃ handle, cancels.lookup pump.subId = some handle ∧
        handle.generation = pump.generation := by
  simp [Pump.owns, Option.any_eq_true_iff_get, Option.eq_some_iff_get_eq]

theorem distinct_of_reaped {α β : Type*} {f : α → β} {list : List α} {index : ℕ}
    {gone kept : α} (distinct : (list.map f).Nodup) (found : list[index]? = some gone)
    (mem : kept ∈ list.eraseIdx index) : f kept ≠ f gone := by
  intro same
  obtain ⟨place, elsewhere, holds⟩ := List.mem_eraseIdx_iff_getElem?.mp mem
  obtain ⟨inRange, rfl⟩ := List.getElem?_eq_some_iff.mp found
  obtain ⟨inRange', rfl⟩ := List.getElem?_eq_some_iff.mp holds
  rw [← List.length_map f] at inRange inRange'
  have places : (list.map f)[place] = (list.map f)[index] := by simpa using same
  exact elsewhere (distinct.getElem_inj_iff.mp places)

theorem cancelled_erase {pump other : Pump}
    (own : s.cancels.lookup pump.subId = some pump.ticket.2)
    (distinct : other.cancel ≠ pump.cancel) :
    other.cancelled (s.cancels.erase pump.subId) = other.cancelled s.cancels := by
  rw [Bool.eq_iff_iff, ← not_iff_not]
  simp only [Bool.not_eq_true, cancelled_eq_false_iff]
  constructor
  · rintro ⟨sub, handle, found, same⟩
    rcases eq_or_ne sub pump.subId with rfl | elsewhere
    · simp at found
    · exact ⟨sub, handle, by rwa [AList.lookup_erase_ne elsewhere] at found, same⟩
  · rintro ⟨sub, handle, found, same⟩
    refine ⟨sub, handle, ?_, same⟩
    rw [AList.lookup_erase_ne ?_, found]
    rintro rfl
    rw [own, Option.some.injEq] at found
    exact distinct (same.symm.trans (congrArg CancelHandle.sender found.symm))

namespace Table

theorem ticket_mem {pump : Pump} (mem : pump ∈ s.subs) : pump.ticket ∈ s.tickets :=
  List.mem_map_of_mem mem

/-- A pump still holding a live channel is the one its id is registered to. -/
theorem running_iff (table : Table config s) {pump : Pump} (mem : pump ∈ s.subs) :
    pump.cancelled s.cancels = false ↔ s.cancels.lookup pump.subId = some pump.ticket.2 := by
  rw [cancelled_eq_false_iff]
  constructor
  · rintro ⟨sub, handle, found, same⟩
    have ticket : (sub, handle) = pump.ticket :=
      List.inj_on_of_nodup_map table.senders (table.owned found) (ticket_mem mem) same
    rw [Pump.ticket, Prod.mk.injEq] at ticket
    rw [← ticket.1, found, ticket.2]
    rfl
  · exact fun found => ⟨_, _, found, rfl⟩

theorem owns_iff_running (table : Table config s) {pump : Pump} (mem : pump ∈ s.subs) :
    pump.owns s.cancels = true ↔ s.cancels.lookup pump.subId = some pump.ticket.2 := by
  rw [owns_iff]
  constructor
  · rintro ⟨handle, found, same⟩
    have ticket : (pump.subId, handle) = pump.ticket :=
      List.inj_on_of_nodup_map table.generations (table.owned found) (ticket_mem mem) same
    rw [found, ← ticket]
  · exact fun found => ⟨_, found, rfl⟩

theorem pump_generations (table : Table config s) : (s.subs.map Pump.generation).Nodup := by
  have generations := table.generations
  rwa [State.tickets, List.map_map] at generations

theorem sole (table : Table config s) {pump other : Pump} (mem : pump ∈ s.subs)
    (other_mem : other ∈ s.subs) (entry : s.cancels.lookup pump.subId = some pump.ticket.2)
    (other_entry : s.cancels.lookup other.subId = some other.ticket.2) (distinct : other ≠ pump) :
    other.subId ≠ pump.subId := by
  intro sub
  rw [sub, entry, Option.some.injEq] at other_entry
  exact distinct (List.inj_on_of_nodup_map table.pump_generations other_mem mem
    (congrArg CancelHandle.generation other_entry.symm))

theorem congr (table : Table config s) {after : State} (tickets : after.tickets = s.tickets)
    (cancels : after.cancels = s.cancels) (generation : after.nextGeneration = s.nextGeneration)
    (channels : after.channels = s.channels) : Table config after := by
  constructor
  · exact cancels ▸ table.capped
  · rw [cancels, tickets]
    exact table.owned
  · exact tickets ▸ table.generations
  · exact tickets ▸ table.senders
  · rw [tickets, generation]
    exact table.generation_lt
  · rw [tickets, channels]
    exact table.sender_lt

theorem erase (table : Table config s) (sub : String) :
    Table config { s with cancels := s.cancels.erase sub } where
  capped := (List.kerase_sublist sub s.cancels.entries).length_le.trans table.capped
  owned {other handle} found := by
    rcases eq_or_ne other sub with rfl | distinct
    · simp at found
    · rw [AList.lookup_erase_ne distinct] at found
      exact table.owned found
  generations := table.generations
  senders := table.senders
  generation_lt := table.generation_lt
  sender_lt := table.sender_lt

theorem reap (table : Table config s) {index : ℕ} {pump : Pump}
    (found : s.subs[index]? = some pump)
    (gone : s.cancels.lookup pump.subId ≠ some pump.ticket.2) :
    Table config { s with subs := s.subs.eraseIdx index } := by
  have fewer : ({ s with subs := s.subs.eraseIdx index } : State).tickets.Sublist s.tickets :=
    (List.eraseIdx_sublist s.subs index).map _
  constructor
  · exact table.capped
  · intro sub handle entry
    obtain ⟨holder, mem, ticket⟩ := List.mem_map.mp (table.owned entry)
    obtain ⟨place, holds⟩ := List.mem_iff_getElem?.mp mem
    rcases eq_or_ne place index with rfl | elsewhere
    · obtain rfl : holder = pump := by simpa [holds] using found
      rw [Pump.ticket, Prod.mk.injEq] at ticket
      obtain ⟨rfl, rfl⟩ := ticket
      exact absurd entry gone
    · exact List.mem_map.mpr
        ⟨holder, List.mem_eraseIdx_iff_getElem?.mpr ⟨place, elsewhere, holds⟩, ticket⟩
  · exact table.generations.sublist (fewer.map _)
  · exact table.senders.sublist (fewer.map _)
  · exact fun ticket mem => table.generation_lt ticket (fewer.subset mem)
  · exact fun ticket mem => table.sender_lt ticket (fewer.subset mem)

/-- A new subscription takes a fresh generation and a fresh channel. -/
theorem register (table : Table config s) {sub : String} {snapshots : List Snapshot}
    (admitted : s.admits config sub = true) : Table config (s.register sub snapshots) := by
  simp only [State.admits, Bool.and_eq_true, Option.isNone_iff_eq_none, decide_eq_true_eq,
    AList.lookup_eq_none] at admitted
  obtain ⟨free, room⟩ := admitted
  have tickets : (s.register sub snapshots).tickets =
      s.tickets ++ [(sub, ⟨s.nextGeneration, s.channels⟩)] := by
    simp [State.tickets, State.register, Pump.ticket]
  constructor
  · simp only [State.register, AList.entries_insert_of_notMem free, List.length_cons]
    exact room
  · intro other handle entry
    rw [tickets, List.mem_append]
    rcases eq_or_ne other sub with rfl | distinct
    · simp only [State.register, AList.lookup_insert, Option.some.injEq] at entry
      exact .inr (by simp [entry])
    · simp only [State.register, AList.lookup_insert_ne distinct] at entry
      exact .inl (table.owned entry)
  · rw [tickets, List.map_append, List.nodup_append']
    refine ⟨table.generations, by simp, ?_⟩
    intro generation old new
    obtain ⟨ticket, mem, rfl⟩ := List.mem_map.mp old
    have bound := table.generation_lt ticket mem
    simp only [List.map_cons, List.map_nil, List.mem_singleton] at new
    omega
  · rw [tickets, List.map_append, List.nodup_append']
    refine ⟨table.senders, by simp, ?_⟩
    intro sender old new
    obtain ⟨ticket, mem, rfl⟩ := List.mem_map.mp old
    have bound := table.sender_lt ticket mem
    simp only [List.map_cons, List.map_nil, List.mem_singleton] at new
    omega
  · intro ticket mem
    rw [tickets, List.mem_append, List.mem_singleton] at mem
    rcases mem with mem | rfl
    · exact Nat.lt_succ_of_lt (table.generation_lt ticket mem)
    · exact Nat.lt_succ_self _
  · intro ticket mem
    rw [tickets, List.mem_append, List.mem_singleton] at mem
    rcases mem with mem | rfl
    · exact Nat.lt_succ_of_lt (table.sender_lt ticket mem)
    · exact Nat.lt_succ_self _

theorem tickets_set {index : ℕ} {pump : Pump} (next : Pump) (found : s.subs[index]? = some pump)
    (same : next.ticket = pump.ticket) : (s.subs.set index next).map Pump.ticket = s.tickets := by
  rw [List.map_set, same, State.tickets]
  obtain ⟨inRange, rfl⟩ := List.getElem?_eq_some_iff.mp found
  rw [← List.getElem_map Pump.ticket (h := by simpa using inRange), List.set_getElem_self]

theorem took (table : Table config s) {input : Input} {after : State} {emitted : List Record}
    (took : Took codec config s input after emitted) : Table config after := by
  have same : ∀ {greeted closed : Bool}, Table config { s with greeted, closed } :=
    table.congr rfl rfl rfl rfl
  cases took with
  | plain => exact same
  | reset => exact ⟨by simp, by simp, by simp [State.tickets], by simp [State.tickets],
      by simp [State.tickets], by simp [State.tickets]⟩
  | accepted _ admitted => exact table.register admitted
  | interrupted => exact same
  | unsubscribed => exact table.erase _
  | event => exact table.congr rfl rfl rfl rfl
  | foreign found _ foreign =>
      apply table.reap found
      intro entry
      have own := (table.owns_iff_running (List.mem_of_getElem? found)).mpr entry
      simp [own] at foreign
  | pruned found => exact (table.erase _).reap found (by simp)
  | lastWord found => exact ((table.erase _).reap found (by simp)).congr rfl rfl rfl rfl
  | silenced found => exact ((table.erase _).reap found (by simp)).congr rfl rfl rfl rfl
  | queued found => exact table.congr (tickets_set _ found rfl) rfl rfl rfl
  | overflowed found => exact table.congr (tickets_set _ found rfl) rfl rfl rfl
  | finished found => exact table.congr (tickets_set _ found rfl) rfl rfl rfl

end Table

theorem table_of_runs {allowed : State → Input → Prop} {log : List Record}
    (reached : Runs codec config allowed s log) : Table config s := by
  refine reached.invariant (fun s _ => Table config s) ?_ ?_
  · exact ⟨by simp, by simp, by simp [State.tickets], by simp [State.tickets],
      by simp [State.tickets], by simp [State.tickets]⟩
  · intro state log input after emitted _ _ stepped table
    exact table.took (took_of_step stepped).2

/-- The table as its two sides see it between iterations. -/
structure SubscriptionTable (config : SessionConfig) (s : State) : Prop where
  capped : s.cancels.entries.length ≤ config.limits.maxSubsPerConnection
  entry_pump : ∀ {sub handle}, s.cancels.lookup sub = some handle →
    s.subs.countP (fun pump => pump.subId = sub ∧ pump.generation = handle.generation) = 1 ∧
    ∀ pump ∈ s.subs, pump.subId = sub → pump.generation = handle.generation →
      pump.cancelled s.cancels = false
  pump_entry : ∀ pump ∈ s.subs, pump.cancelled s.cancels = false → pump.ended = none →
    ∃ handle, s.cancels.lookup pump.subId = some handle ∧ handle.generation = pump.generation
  entry_generations : (s.cancels.entries.map fun entry => entry.2.generation).Nodup
  pump_generations : (s.subs.map Pump.generation).Nodup

/-- Reaping a pump removes no entry but its own and changes no other pump's cancel. -/
def ReapsOwn (codec : EnvelopeCodec) (config : SessionConfig) (s : State) : Prop :=
  ∀ {index sends pump after emitted}, s.subs[index]? = some pump →
    step codec config s (.drained index sends) = some (after, emitted) →
    (∀ {sub handle}, s.cancels.lookup sub = some handle →
      after.cancels.lookup sub = some handle ∨
        sub = pump.subId ∧ handle.generation = pump.generation) ∧
    (∀ {sub}, s.cancels.lookup sub = none → after.cancels.lookup sub = none) ∧
    ∀ other ∈ after.subs, other.cancelled after.cancels = other.cancelled s.cancels

namespace Table

theorem entry_pump (table : Table config s) {sub : String} {handle : CancelHandle}
    (found : s.cancels.lookup sub = some handle) :
    s.subs.countP (fun pump => pump.subId = sub ∧ pump.generation = handle.generation) = 1 ∧
    ∀ pump ∈ s.subs, pump.subId = sub → pump.generation = handle.generation →
      pump.cancelled s.cancels = false := by
  obtain ⟨holder, mem, ticket⟩ := List.mem_map.mp (table.owned found)
  rw [Pump.ticket, Prod.mk.injEq] at ticket
  obtain ⟨rfl, rfl⟩ := ticket
  constructor
  · apply Nat.le_antisymm
    · calc s.subs.countP (fun pump =>
            pump.subId = holder.subId ∧ pump.generation = holder.generation)
          ≤ s.subs.countP (fun pump => pump.generation == holder.generation) := by
            apply List.countP_mono_left
            simp
        _ = (s.subs.map Pump.generation).count holder.generation := by
            rw [List.count, List.countP_map, Function.comp_def]
        _ ≤ 1 := List.nodup_iff_count_le_one.mp table.pump_generations _
    · exact List.countP_pos_iff.mpr ⟨holder, mem, by simp⟩
  · intro pump pump_mem _ same
    have one : pump = holder :=
      List.inj_on_of_nodup_map table.pump_generations pump_mem mem same
    exact (table.running_iff pump_mem).mpr (one ▸ found)

theorem entry_generations (table : Table config s) :
    (s.cancels.entries.map fun entry => entry.2.generation).Nodup := by
  apply List.Nodup.map_on _ s.cancels.nodupKeys.nodup
  rintro ⟨sub, handle⟩ entry ⟨sub', handle'⟩ entry' same
  have ticket : (sub, handle) = (sub', handle') :=
    List.inj_on_of_nodup_map table.generations (table.owned (AList.mem_lookup_iff.mpr entry))
      (table.owned (AList.mem_lookup_iff.mpr entry')) same
  rw [Prod.mk.injEq] at ticket
  obtain ⟨rfl, rfl⟩ := ticket
  rfl

theorem subscriptionTable (table : Table config s) : SubscriptionTable config s where
  capped := table.capped
  entry_pump found := table.entry_pump found
  pump_entry _ mem running _ := ⟨_, (table.running_iff mem).mp running, rfl⟩
  entry_generations := table.entry_generations
  pump_generations := table.pump_generations

theorem reapsOwn (table : Table config s) : ReapsOwn codec config s := by
  intro index sends pump after emitted found stepped
  have senders : (s.subs.map Pump.cancel).Nodup := by
    have senders := table.senders
    rwa [State.tickets, List.map_map] at senders
  have pruned : pump.owns s.cancels = true →
      (∀ {sub handle}, s.cancels.lookup sub = some handle →
        (s.cancels.erase pump.subId).lookup sub = some handle ∨
          sub = pump.subId ∧ handle.generation = pump.generation) ∧
      (∀ {sub}, s.cancels.lookup sub = none →
        (s.cancels.erase pump.subId).lookup sub = none) ∧
      ∀ other ∈ s.subs.eraseIdx index,
        other.cancelled (s.cancels.erase pump.subId) = other.cancelled s.cancels := by
    intro owns
    have own := (table.owns_iff_running (List.mem_of_getElem? found)).mp owns
    refine ⟨?_, ?_, ?_⟩
    · intro sub handle entry
      rcases eq_or_ne sub pump.subId with rfl | elsewhere
      · rw [own, Option.some.injEq] at entry
        exact .inr ⟨rfl, congrArg CancelHandle.generation entry.symm⟩
      · exact .inl (by rw [AList.lookup_erase_ne elsewhere, entry])
    · intro sub absent
      rcases eq_or_ne sub pump.subId with rfl | elsewhere
      · simp
      · rw [AList.lookup_erase_ne elsewhere, absent]
    · intro other mem
      exact cancelled_erase own (distinct_of_reaped senders found mem)
  have took := (took_of_step stepped).2
  cases took with
  | plain => exact ⟨fun entry => .inl entry, id, fun _ _ => rfl⟩
  | foreign => exact ⟨fun entry => .inl entry, id, fun _ _ => rfl⟩
  | pruned found' _ owns =>
      obtain rfl := Option.some.inj (found.symm.trans found')
      exact pruned owns
  | lastWord found' _ owns =>
      obtain rfl := Option.some.inj (found.symm.trans found')
      exact pruned owns
  | silenced found' _ owns =>
      obtain rfl := Option.some.inj (found.symm.trans found')
      exact pruned owns

end Table

/-- Between any two iterations of any session the table is consistent, and
reaping a finished pump touches no subscription but its own. -/
theorem subscriptionTable_of_reachable {log : List Record}
    (reached : Reachable (step codec config) {} s log) :
    SubscriptionTable config s ∧ ReapsOwn codec config s :=
  ⟨(table_of_runs reached).subscriptionTable, (table_of_runs reached).reapsOwn⟩

def aimx : EnvelopeCodec := aimxCodec .reference

/-- `Subscribe` with id 5, accepted by the session. -/
def subscribes : Input :=
  .frame (utf8 "\x7b\"t\":\"sub\",\"id\":5,\"topic\":\"a\"\x7d") { subscribe := .ok () } []

/-- `Unsubscribe` of the subscription with id 5. -/
def unsubscribes : Input := .frame (utf8 "\x7b\"t\":\"unsub\",\"sub\":\"5\"\x7d") {} []

theorem subscriptionTable_of_resubscription :
    ∃ s, s.cancels.lookup "5" = some ⟨1, 1⟩ ∧ s.subs.length = 1 ∧
      SubscriptionTable {} s ∧ ReapsOwn aimx {} s := by
  have replayed : (replay (step aimx {}) {} 
      [subscribes, unsubscribes, subscribes, .finish 0, .drained 0 []]).map
      (fun run => (run.1.cancels.lookup "5", run.1.subs.length)) = some (some ⟨1, 1⟩, 1) := by
    decide +kernel
  obtain ⟨⟨s, log⟩, run, ends⟩ := Option.map_eq_some_iff.mp replayed
  rw [Prod.mk.injEq] at ends
  exact ⟨s, ends.1, ends.2, subscriptionTable_of_reachable (reachable_of_replay run)⟩

end AimDb.Session.Server
