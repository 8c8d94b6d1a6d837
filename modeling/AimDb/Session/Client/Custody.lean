import AimDb.Session.Client.Steps
import Mathlib.Data.List.Perm.Basic

/-!
# Who holds the sender of a call

A reply sender travels with the command that carries it and ends in the pending
table; it is used up where it is answered or dropped.  Ids are numbered once for
calls and subscriptions together, so a sender can be followed by its id.
-/

namespace AimDb.Session.Client

open AimDb.Json AimDb.Transition

variable {codec : EnvelopeCodec} {config : ClientConfig} {platform : Platform} {s after : State}
  {input : Input} {emitted : List Record}

def ClientCmd.opens : ClientCmd → Option UInt64
  | .call id _ _ _ | .subscribe id _ _ => some id
  | .cancelCall _ | .write _ _ => none

def Engine.hand : Engine → List ClientCmd
  | .took cmd => [cmd]
  | _ => []

def State.commands (s : State) : List ClientCmd :=
  s.enqueuing ++ s.queue ++ s.evicted ++ s.engine.hand

def State.openings (s : State) (id : UInt64) : ℕ :=
  s.commands.countP fun cmd => cmd.opens = some id

/-- Commands and table entries that hold the request with this id. -/
def State.copies (s : State) (id : UInt64) : ℕ :=
  s.openings id + if (s.pending.lookup id).isSome then 1 else 0

def State.Names (s : State) : ClientCmd → Prop
  | .call id _ _ call => (s.calls call).id = some id
  | .subscribe id _ stream => (s.streams stream).id = some id
  | .cancelCall _ | .write _ _ => True

/-- Ids are given out once, and every table is keyed by the ids given out. -/
structure Ids (s : State) : Prop where
  call_lt : ∀ {call id}, (s.calls call).id = some id → id.toNat < s.nextId ∧ call < s.started
  stream_lt : ∀ {stream id},
    (s.streams stream).id = some id → id.toNat < s.nextId ∧ stream < s.opened
  call_inj : ∀ {call other id},
    (s.calls call).id = some id → (s.calls other).id = some id → call = other
  stream_inj : ∀ {stream other id},
    (s.streams stream).id = some id → (s.streams other).id = some id → stream = other
  apart : ∀ {call stream id}, (s.calls call).id = some id → (s.streams stream).id ≠ some id
  named : ∀ cmd ∈ s.commands, s.Names cmd
  filed : ∀ {id call}, s.pending.lookup id = some call → (s.calls call).id = some id
  routed : ∀ {key stream}, s.subs.lookup key = some stream →
    ∃ id, (s.streams stream).id = some id ∧ key = subKey id

/-- A held sender is in one place, a used up one in none. -/
structure Custody (s : State) : Prop where
  owed : ∀ {call id}, (s.calls call).id = some id →
    s.copies id = if (s.calls call).reply = .held then 1 else 0
  unowned : ∀ {call}, (s.calls call).id = none → (s.calls call).reply ≠ .held
  once : ∀ {stream id}, (s.streams stream).id = some id → s.openings id ≤ 1
  resolved : ∀ {call result},
    (s.calls call).phase = .resolved result → (s.calls call).reply ≠ .held

/-- A step that numbers nothing: the commands it makes, the ones it uses up, and
where the senders of these go. -/
structure Effect (s after : State) (made lost : List ClientCmd) : Prop where
  commands : (s.commands ++ made).Perm (after.commands ++ lost)
  unopened : ∀ cmd ∈ made, cmd.opens = none
  callIds : ∀ call, (after.calls call).id = (s.calls call).id
  streamIds : ∀ stream, (after.streams stream).id = (s.streams stream).id
  counters : after.nextId = s.nextId ∧ after.started = s.started ∧ after.opened = s.opened
  filed : ∀ {id call}, after.pending.lookup id = some call →
    s.pending.lookup id = some call ∨ ∃ method params, .call id method params call ∈ lost
  routed : ∀ {key stream}, after.subs.lookup key = some stream →
    s.subs.lookup key = some stream ∨
      ∃ id topic, .subscribe id topic stream ∈ lost ∧ key = subKey id
  kept : ∀ call, (after.calls call).reply = (s.calls call).reply ∨
    (after.calls call).reply ≠ .held ∧ ∃ id, after.pending.lookup id = none ∧
      (s.pending.lookup id = some call ∨ ∃ method params, .call id method params call ∈ lost)
  lost : ∀ {id method params call}, .call id method params call ∈ lost →
    after.pending.lookup id = some call ∨ (after.calls call).reply ≠ .held
  unfiled : ∀ {id call}, s.pending.lookup id = some call →
    after.pending.lookup id = some call ∨ (after.calls call).reply ≠ .held
  resolved : ∀ {call result}, (after.calls call).phase = .resolved result →
    (s.calls call).phase = .resolved result ∨ (after.calls call).reply ≠ .held

theorem openings_effect {made lost : List ClientCmd} (effect : Effect s after made lost)
    (id : UInt64) :
    s.openings id = after.openings id + lost.countP fun cmd => cmd.opens = some id := by
  have moved := effect.commands.countP_eq fun cmd => cmd.opens = some id
  have unopened : made.countP (fun cmd => cmd.opens = some id) = 0 := by
    rw [List.countP_eq_zero]
    intro cmd mem
    simp [effect.unopened cmd mem]
  rw [List.countP_append, List.countP_append, unopened] at moved
  exact moved

theorem opens_of_lost {made lost : List ClientCmd} (effect : Effect s after made lost)
    {cmd : ClientCmd} (mem : cmd ∈ lost) {id : UInt64} (opens : cmd.opens = some id) :
    cmd ∈ s.commands := by
  have moved : cmd ∈ s.commands ++ made :=
    effect.commands.mem_iff.mpr (List.mem_append_right _ mem)
  rcases List.mem_append.mp moved with old | new
  · exact old
  · simp [effect.unopened cmd new] at opens

theorem Ids.effect (ids : Ids s) {made lost : List ClientCmd}
    (effect : Effect s after made lost) : Ids after := by
  obtain ⟨nextId, started, opened⟩ := effect.counters
  constructor
  · intro call id has
    rw [effect.callIds] at has
    rw [nextId, started]
    exact ids.call_lt has
  · intro stream id has
    rw [effect.streamIds] at has
    rw [nextId, opened]
    exact ids.stream_lt has
  · intro call other id has same
    rw [effect.callIds] at has same
    exact ids.call_inj has same
  · intro stream other id has same
    rw [effect.streamIds] at has same
    exact ids.stream_inj has same
  · intro call stream id has
    rw [effect.callIds] at has
    rw [effect.streamIds]
    exact ids.apart has
  · intro cmd mem
    have names : s.Names cmd ∨ cmd.opens = none := by
      rcases List.mem_append.mp
        (effect.commands.mem_iff.mpr (List.mem_append_left _ mem)) with old | new
      · exact .inl (ids.named cmd old)
      · exact .inr (effect.unopened cmd new)
    cases cmd with
    | call => simpa [State.Names, ClientCmd.opens, effect.callIds] using names
    | subscribe => simpa [State.Names, ClientCmd.opens, effect.streamIds] using names
    | cancelCall => trivial
    | write => trivial
  · intro id call found
    rw [effect.callIds]
    rcases effect.filed found with old | ⟨method, params, mem⟩
    · exact ids.filed old
    · exact ids.named _ (opens_of_lost effect mem rfl)
  · intro key stream found
    simp only [effect.streamIds]
    rcases effect.routed found with old | ⟨id, topic, mem, rfl⟩
    · exact ids.routed old
    · exact ⟨id, ids.named _ (opens_of_lost effect mem rfl), rfl⟩

theorem Custody.copies_le (custody : Custody s) {call : ℕ} {id : UInt64}
    (has : (s.calls call).id = some id) : s.copies id ≤ 1 := by
  rw [custody.owed has]
  split_ifs <;> omega

theorem pos_of_lost {lost : List ClientCmd} {cmd : ClientCmd} (mem : cmd ∈ lost) {id : UInt64}
    (opens : cmd.opens = some id) : 0 < lost.countP fun cmd => cmd.opens = some id :=
  List.countP_pos_iff.mpr ⟨cmd, mem, by simpa using opens⟩

theorem copies_of_filed {id : UInt64} {call : ℕ} (found : s.pending.lookup id = some call) :
    s.copies id = s.openings id + 1 := by
  simp [State.copies, found]

theorem copies_of_unfiled {id : UInt64} (absent : s.pending.lookup id = none) :
    s.copies id = s.openings id := by
  simp [State.copies, absent]

/-- A sender still held has moved, to the table or with its command. -/
theorem Custody.effect_held (custody : Custody s) (ids : Ids s)
    {made lost : List ClientCmd} (effect : Effect s after made lost) {call : ℕ} {id : UInt64}
    (has : (s.calls call).id = some id) (held : (after.calls call).reply = .held) :
    after.copies id = 1 := by
  have before : s.copies id = 1 := by
    rw [custody.owed has, if_pos]
    rcases effect.kept call with same | changed
    · rw [← same, held]
    · exact absurd held changed.1
  have moved := openings_effect effect id
  cases found : s.pending.lookup id with
  | some holder =>
      obtain rfl := ids.call_inj (ids.filed found) has
      have still := (effect.unfiled found).resolve_right (not_not.mpr held)
      rw [copies_of_filed found] at before
      rw [copies_of_filed still]
      omega
  | none =>
      rw [copies_of_unfiled found] at before
      cases after_found : after.pending.lookup id with
      | some holder =>
          rw [copies_of_filed after_found]
          obtain ⟨method, params, mem⟩ :=
            (effect.filed after_found).resolve_left (by simp [found])
          have used := pos_of_lost mem rfl
          omega
      | none =>
          rw [copies_of_unfiled after_found]
          suffices unused : lost.countP (fun cmd => cmd.opens = some id) = 0 by omega
          rw [List.countP_eq_zero]
          intro cmd mem opens
          rw [decide_eq_true_eq] at opens
          have names := ids.named cmd (opens_of_lost effect mem opens)
          cases cmd with
          | call other method params holder =>
              obtain rfl : other = id := by simpa [ClientCmd.opens] using opens
              obtain rfl := ids.call_inj names has
              rcases effect.lost mem with refiled | used
              · simp [after_found] at refiled
              · exact used held
          | subscribe other topic stream =>
              obtain rfl : other = id := by simpa [ClientCmd.opens] using opens
              exact ids.apart has names
          | cancelCall => simp [ClientCmd.opens] at opens
          | write => simp [ClientCmd.opens] at opens

theorem Custody.effect_used (custody : Custody s) (ids : Ids s)
    {made lost : List ClientCmd} (effect : Effect s after made lost) {call : ℕ} {id : UInt64}
    (has : (s.calls call).id = some id) (used : (after.calls call).reply ≠ .held) :
    after.copies id = 0 := by
  have moved := openings_effect effect id
  rcases effect.kept call with same | ⟨-, other, absent, holder⟩
  · have before : s.copies id = 0 := by
      rw [custody.owed has, if_neg]
      rwa [← same]
    have unfiled : s.pending.lookup id = none := by
      by_contra found
      obtain ⟨holder, found⟩ := Option.ne_none_iff_exists'.mp found
      rw [copies_of_filed found] at before
      omega
    rw [copies_of_unfiled unfiled] at before
    cases found : after.pending.lookup id with
    | some holder =>
        obtain ⟨method, params, mem⟩ := (effect.filed found).resolve_left (by simp [unfiled])
        have used := pos_of_lost mem rfl
        omega
    | none =>
        rw [copies_of_unfiled found]
        omega
  · have bound := custody.copies_le has
    rcases holder with found | ⟨method, params, mem⟩
    · obtain rfl := Option.some.inj ((ids.filed found).symm.trans has)
      rw [copies_of_filed found] at bound
      rw [copies_of_unfiled absent]
      omega
    · have names : (s.calls call).id = some other :=
        ids.named _ (opens_of_lost effect mem rfl)
      obtain rfl := Option.some.inj (names.symm.trans has)
      have used := pos_of_lost mem rfl
      rw [copies_of_unfiled absent]
      rw [State.copies] at bound
      omega

theorem Custody.effect (custody : Custody s) (ids : Ids s)
    {made lost : List ClientCmd} (effect : Effect s after made lost) : Custody after := by
  constructor
  · intro call id has
    rw [effect.callIds] at has
    split_ifs with held
    · exact custody.effect_held ids effect has held
    · exact custody.effect_used ids effect has held
  · intro call unnumbered
    rw [effect.callIds] at unnumbered
    rcases effect.kept call with same | changed
    · exact same ▸ custody.unowned unnumbered
    · exact changed.1
  · intro stream id has
    rw [effect.streamIds] at has
    have bound := custody.once has
    have moved := openings_effect effect id
    omega
  · intro call result resolved
    rcases effect.resolved resolved with already | used
    · rcases effect.kept call with same | changed
      · exact same ▸ custody.resolved already
      · exact changed.1
    · exact used

theorem mem_pending_calls {pending : PendingCalls} {call : ℕ} :
    call ∈ pending.entries.map Sigma.snd ↔ ∃ id, pending.lookup id = some call := by
  rw [List.mem_map]
  constructor
  · rintro ⟨⟨id, holder⟩, entry, rfl⟩
    exact ⟨id, AList.mem_lookup_iff.mpr entry⟩
  · rintro ⟨id, found⟩
    exact ⟨⟨id, call⟩, AList.mem_lookup_iff.mp found, rfl⟩

theorem dropTables_calls (s : State) (call : ℕ) :
    (s.dropTables.calls call).id = (s.calls call).id ∧
      (s.dropTables.calls call).phase = (s.calls call).phase ∧
      ((∃ id, s.pending.lookup id = some call) → (s.dropTables.calls call).reply = .dropped) ∧
      ((∀ id, s.pending.lookup id ≠ some call) →
        s.dropTables.calls call = s.calls call) := by
  unfold State.dropTables
  dsimp only
  split_ifs with filed <;> rw [mem_pending_calls] at filed
  · exact ⟨rfl, rfl, fun _ => rfl, fun absent => absurd filed.choose_spec (absent _)⟩
  · exact ⟨rfl, rfl, fun found => absurd found filed, fun _ => rfl⟩

theorem unsent_calls (s : State) (id : UInt64) (call : ℕ) :
    let failed := (s.removePending id (.sent (.error .internal))).dropTables
    (failed.calls call).id = (s.calls call).id ∧
      (failed.calls call).phase = (s.calls call).phase ∧
      ((∃ other, s.pending.lookup other = some call) →
        (failed.calls call).reply = .sent (.error .internal) ∨
          (failed.calls call).reply = .dropped) ∧
      ((∀ other, s.pending.lookup other ≠ some call) → failed.calls call = s.calls call) := by
  obtain ⟨gone, others⟩ := s.removePending_pending id (.sent (.error .internal))
  obtain ⟨takenId, takenPhase, told, untold⟩ :=
    s.removePending_calls call id (.sent (.error .internal))
  obtain ⟨dropId, dropPhase, dropped, spared⟩ :=
    dropTables_calls (s.removePending id (.sent (.error .internal))) call
  refine ⟨dropId.trans takenId, dropPhase.trans takenPhase, ?_, ?_⟩
  · intro found
    by_cases remains : ∃ other,
        (s.removePending id (.sent (.error .internal))).pending.lookup other = some call
    · exact .inr (dropped remains)
    · push Not at remains
      obtain ⟨other, found⟩ := found
      rcases eq_or_ne other id with rfl | distinct
      · exact .inl (by rw [spared remains, told found])
      · exact absurd (others other distinct ▸ found) (remains other)
  · intro foreign
    rw [spared, untold (foreign id)]
    intro other
    rcases eq_or_ne other id with rfl | distinct
    · simp [gone]
    · rw [others other distinct]
      exact foreign other

theorem eraseIdx_perm {index : ℕ} {cmd : ClientCmd} {cmds : List ClientCmd}
    (found : cmds[index]? = some cmd) : cmds.Perm (cmd :: cmds.eraseIdx index) := by
  obtain ⟨inRange, rfl⟩ := List.getElem?_eq_some_iff.mp found
  exact (List.getElem_cons_eraseIdx_perm inRange).symm

theorem perm_of_counts {made lost : List ClientCmd}
    (counts : ∀ cmd, s.enqueuing.count cmd + s.queue.count cmd + s.evicted.count cmd +
        s.engine.hand.count cmd + made.count cmd =
      after.enqueuing.count cmd + after.queue.count cmd + after.evicted.count cmd +
        after.engine.hand.count cmd + lost.count cmd) :
    (s.commands ++ made).Perm (after.commands ++ lost) := by
  rw [List.perm_iff_count]
  intro cmd
  simpa only [State.commands, List.count_append] using counts cmd

theorem count_found {cmds : List ClientCmd} {index : ℕ} {cmd : ClientCmd}
    (found : cmds[index]? = some cmd) (other : ClientCmd) :
    cmds.count other = [cmd].count other + (cmds.eraseIdx index).count other := by
  rw [(eraseIdx_perm found).count_eq, List.count_cons, List.count_singleton, Nat.add_comm]

theorem discard_phase (s : State) (cmd : ClientCmd) (call : ℕ) :
    ((s.discard cmd).calls call).phase = (s.calls call).phase := by
  cases cmd with
  | call => exact s.setReply_phase _ _ _
  | cancelCall => rfl
  | subscribe => rfl
  | write => rfl

theorem discard_id (s : State) (cmd : ClientCmd) (call : ℕ) :
    ((s.discard cmd).calls call).id = (s.calls call).id := by
  cases cmd with
  | call => exact s.setReply_id _ _ _
  | cancelCall => rfl
  | subscribe => rfl
  | write => rfl

theorem removed_pending (id : UInt64) (reply : Reply) {key : UInt64} {call : ℕ}
    (found : (s.removePending id reply).pending.lookup key = some call) :
    s.pending.lookup key = some call := by
  obtain ⟨gone, others⟩ := s.removePending_pending id reply
  rcases eq_or_ne key id with rfl | distinct
  · simp [gone] at found
  · rwa [others key distinct] at found

theorem leave_calls (s : State) (call : ℕ) :
    (s.leave.calls call).id = (s.calls call).id ∧
      (s.leave.calls call).phase = (s.calls call).phase ∧
      ((s.leave.calls call).reply = (s.calls call).reply ∨
        (s.leave.calls call).reply = .dropped) := by
  have dropped (mid : State) : (mid.dropTables.calls call).id = (mid.calls call).id ∧
      (mid.dropTables.calls call).phase = (mid.calls call).phase ∧
      ((mid.dropTables.calls call).reply = (mid.calls call).reply ∨
        (mid.dropTables.calls call).reply = .dropped) := by
    obtain ⟨id, phase, gone, kept⟩ := dropTables_calls mid call
    refine ⟨id, phase, ?_⟩
    by_cases filed : ∃ id, mid.pending.lookup id = some call
    · exact .inr (gone filed)
    · push Not at filed
      exact .inl (congrArg Call.reply (kept filed))
  unfold State.leave
  split
  · rename_i cmd holding
    obtain ⟨id, phase, reply⟩ := dropped (s.discard cmd)
    refine ⟨id.trans (discard_id s cmd call), phase.trans (discard_phase s cmd call), ?_⟩
    have discarded : ((s.discard cmd).calls call).reply = (s.calls call).reply ∨
        ((s.discard cmd).calls call).reply = .dropped := by
      cases cmd with
      | call =>
          rw [State.discard, State.setReply_reply]
          split_ifs
          · exact .inr rfl
          · exact .inl rfl
      | cancelCall => exact .inl rfl
      | subscribe => exact .inl rfl
      | write => exact .inl rfl
    rcases reply with same | gone
    · exact discarded.imp same.trans same.trans
    · exact .inr gone
  · exact dropped s

theorem lookup_of_erase {Value : Type*} {table : AList fun _ : String => Value} {sub key : String}
    {value : Value} (found : (table.erase sub).lookup key = some value) :
    table.lookup key = some value := by
  rcases eq_or_ne key sub with rfl | distinct
  · simp at found
  · rwa [AList.lookup_erase_ne distinct] at found

theorem stream_id {stream : ℕ} {next : Stream} (same : next.id = (s.streams stream).id)
    (other : ℕ) : (Function.update s.streams stream next other).id = (s.streams other).id := by
  rcases eq_or_ne other stream with rfl | distinct <;> simp [*]

theorem hand_of_unhanded {engine : Engine} (unhanded : ∀ cmd, engine ≠ .took cmd) :
    engine.hand = [] := by
  cases engine with
  | took cmd => exact absurd rfl (unhanded cmd)
  | _ => rfl

/-- Everything an effect speaks about but the commands and the calls is as it was. -/
structure Untouched (s after : State) : Prop where
  streamIds : ∀ stream, (after.streams stream).id = (s.streams stream).id
  counters : after.nextId = s.nextId ∧ after.started = s.started ∧ after.opened = s.opened
  pending : after.pending = s.pending
  subs : ∀ key stream, after.subs.lookup key = some stream → s.subs.lookup key = some stream

theorem Untouched.of_fields (streams : after.streams = s.streams) (nextId : after.nextId = s.nextId)
    (started : after.started = s.started) (opened : after.opened = s.opened)
    (pending : after.pending = s.pending) (subs : after.subs = s.subs) : Untouched s after :=
  ⟨fun _ => by rw [streams], ⟨nextId, started, opened⟩, pending,
    fun _ _ => by rw [subs]; exact id⟩

namespace Effect

variable {mid : State} {made lost : List ClientCmd}

theorem still (same : Untouched s after)
    (commands : (s.commands ++ made).Perm (after.commands ++ lost))
    (unopened : ∀ cmd ∈ made, cmd.opens = none)
    (calling : ∀ id method params call, .call id method params call ∉ lost)
    (calls : ∀ call, (after.calls call).id = (s.calls call).id ∧
      (after.calls call).reply = (s.calls call).reply)
    (resolved : ∀ call result, (after.calls call).phase = .resolved result →
      (s.calls call).phase = .resolved result ∨ (after.calls call).reply ≠ .held) :
    Effect s after made lost where
  commands := commands
  unopened := unopened
  callIds call := (calls call).1
  streamIds := same.streamIds
  counters := same.counters
  filed found := .inl (same.pending ▸ found)
  routed found := .inl (same.subs _ _ found)
  kept call := .inl (calls call).2
  lost mem := absurd mem (calling _ _ _ _)
  unfiled found := .inl (same.pending ▸ found)
  resolved := resolved _ _

theorem moving (same : Untouched s after)
    (commands : (s.commands ++ made).Perm (after.commands ++ lost))
    (unopened : ∀ cmd ∈ made, cmd.opens = none)
    (calling : ∀ id method params call, .call id method params call ∉ lost)
    (calls : after.calls = s.calls) : Effect s after made lost :=
  still same commands unopened calling (fun _ => by simp [calls])
    fun _ _ resolved => .inl (calls ▸ resolved)

theorem phasing {call : ℕ} {phase : Phase} (same : Untouched s mid)
    (commands : (s.commands ++ made).Perm (mid.commands ++ lost))
    (unopened : ∀ cmd ∈ made, cmd.opens = none)
    (calling : ∀ id method params call, .call id method params call ∉ lost)
    (calls : mid.calls = s.calls)
    (resolved : ∀ result, phase = .resolved result → (s.calls call).reply ≠ .held) :
    Effect s (mid.setPhase call phase) made lost := by
  refine still ⟨same.streamIds, same.counters, same.pending,
    same.subs⟩ commands unopened calling
    (by simp [calls]) ?_
  intro other result ended
  rw [State.setPhase_phase, calls] at ended
  split_ifs at ended with own
  · exact .inr (by simpa [own, calls] using resolved result ended)
  · exact .inl ended

theorem proceeding {cmd : ClientCmd} (same : Untouched s mid)
    (commands : (s.commands ++ made).Perm (mid.commands ++ lost))
    (unopened : ∀ cmd ∈ made, cmd.opens = none)
    (calling : ∀ id method params call, .call id method params call ∉ lost)
    (calls : mid.calls = s.calls) : Effect s (mid.proceed cmd) made lost := by
  cases cmd with
  | call => exact phasing same commands unopened calling calls (by simp)
  | cancelCall => exact moving same commands unopened calling calls
  | subscribe => exact moving same commands unopened calling calls
  | write => exact moving same commands unopened calling calls

theorem discarding {cmd : ClientCmd} (same : Untouched s after)
    (commands : s.commands.Perm (after.commands ++ [cmd]))
    (unfiled : ∀ id method params call, cmd = .call id method params call →
      s.pending.lookup id = none)
    (calls : ∀ call, (after.calls call).id = (s.calls call).id ∧
      (after.calls call).reply = ((s.discard cmd).calls call).reply)
    (resolved : ∀ call result, (after.calls call).phase = .resolved result →
      (s.calls call).phase = .resolved result ∨ (after.calls call).reply ≠ .held) :
    Effect s after [] [cmd] where
  commands := by simpa using commands
  unopened := by simp
  callIds call := (calls call).1
  streamIds := same.streamIds
  counters := same.counters
  filed found := .inl (same.pending ▸ found)
  routed found := .inl (same.subs _ _ found)
  kept call := by
    rw [(calls call).2]
    cases cmd with
    | call id method params holder =>
        simp only [State.discard, State.setReply_reply]
        split_ifs with own
        · refine .inr ⟨by simp, id, ?_, .inr ⟨method, params, by simp [own]⟩⟩
          rw [same.pending, unfiled id method params holder rfl]
        · exact .inl rfl
    | cancelCall => exact .inl rfl
    | subscribe => exact .inl rfl
    | write => exact .inl rfl
  lost mem := by
    rw [List.mem_singleton] at mem
    refine .inr ?_
    rw [(calls _).2, ← mem]
    simp [State.discard, State.setReply_reply]
  unfiled found := .inl (same.pending ▸ found)
  resolved := resolved _ _

theorem discarded {cmd : ClientCmd} (same : Untouched s mid)
    (commands : s.commands.Perm (mid.commands ++ [cmd]))
    (unfiled : ∀ id method params call, cmd = .call id method params call →
      s.pending.lookup id = none)
    (calls : mid.calls = s.calls) : Effect s (mid.discard cmd) [] [cmd] := by
  have moved : Untouched s (mid.discard cmd) ∧ (mid.discard cmd).commands = mid.commands ∧
      (mid.discard cmd).calls = (s.discard cmd).calls := by
    cases cmd with
    | call =>
        refine ⟨⟨same.streamIds, same.counters, same.pending, same.subs⟩, rfl, ?_⟩
        simp only [State.discard, State.setReply, calls]
    | cancelCall => exact ⟨same, rfl, calls⟩
    | subscribe => exact ⟨same, rfl, calls⟩
    | write => exact ⟨same, rfl, calls⟩
  obtain ⟨untouched, still, dropped⟩ := moved
  refine discarding untouched (by rwa [still]) unfiled ?_ ?_
  · intro call
    exact ⟨by rw [dropped, discard_id], by rw [dropped]⟩
  · intro call result resolved
    rw [dropped, discard_phase] at resolved
    exact .inl resolved

theorem failing {cmd : ClientCmd} (same : Untouched s mid)
    (commands : s.commands.Perm (mid.commands ++ [cmd]))
    (unfiled : ∀ id method params call, cmd = .call id method params call →
      s.pending.lookup id = none)
    (calls : mid.calls = s.calls) : Effect s (mid.fail cmd).1 [] [cmd] := by
  cases cmd with
  | call id method params call =>
      refine discarding ⟨same.streamIds, same.counters, same.pending,
        same.subs⟩ commands unfiled
        ?_ ?_
      · intro other
        constructor
        · simp [State.fail, calls]
        · simp [State.fail, State.discard, State.setReply_reply, calls]
      · intro other result resolved
        simp only [State.fail, State.setPhase_phase, State.setReply_phase, calls] at resolved
        split_ifs at resolved with own
        · exact .inr (by simp [State.fail, own, State.setReply_reply])
        · exact .inl resolved
  | cancelCall => exact discarded same commands unfiled calls
  | subscribe id topic stream =>
      refine discarding ⟨?_, same.counters, same.pending, same.subs⟩ commands unfiled
        (fun _ => by simp [State.fail, State.discard, calls])
        fun _ _ resolved => .inl (calls ▸ resolved)
      intro other
      rw [← same.streamIds other]
      rcases eq_or_ne other stream with rfl | distinct <;> simp [State.fail, *]
  | write => exact discarded same commands unfiled calls

theorem removing {id : UInt64} {reply : Reply}
    (same : Untouched (s.removePending id reply) after)
    (commands : s.commands.Perm (after.commands ++ lost)) (used : reply ≠ .held)
    (calling : ∀ id method params call, .call id method params call ∉ lost)
    (calls : after.calls = (s.removePending id reply).calls) : Effect s after [] lost := by
  obtain ⟨streamIds, counters, pending, subs⟩ := same
  cases found : s.pending.lookup id with
  | none =>
      have nothing : s.removePending id reply = s := by rw [State.removePending, found]
      rw [nothing] at streamIds counters pending subs calls
      exact moving ⟨streamIds, counters, pending, subs⟩ (by simpa using commands)
        (by simp) calling
        calls
  | some holder =>
      have answered : s.removePending id reply =
          { s.setReply holder reply with pending := s.pending.erase id } := by
        rw [State.removePending, found]
      rw [answered] at streamIds counters pending subs calls
      dsimp only at calls pending
      constructor
      · simpa using commands
      · simp
      · intro call
        rw [calls, State.setReply_id]
      · exact streamIds
      · exact counters
      · intro other call entry
        rw [pending] at entry
        rcases eq_or_ne other id with rfl | distinct
        · simp at entry
        · exact .inl (by rwa [AList.lookup_erase_ne distinct] at entry)
      · exact fun entry => .inl (subs _ _ entry)
      · intro call
        rw [calls, State.setReply_reply]
        split_ifs with own
        · exact .inr ⟨used, id, by simp [pending], .inl (by rw [found, own])⟩
        · exact .inl rfl
      · exact fun mem => absurd mem (calling _ _ _ _)
      · intro other call entry
        rcases eq_or_ne other id with rfl | distinct
        · obtain rfl := Option.some.inj (found.symm.trans entry)
          exact .inr (by rwa [calls, State.setReply_reply, if_pos rfl])
        · exact .inl (by rwa [pending, AList.lookup_erase_ne distinct])
      · intro call result resolved
        rw [calls, State.setReply_phase] at resolved
        exact .inl resolved

theorem dropping (streamIds : after.streams = s.streams)
    (counters : after.nextId = s.nextId ∧ after.started = s.started ∧ after.opened = s.opened)
    (pending : after.pending = ∅) (subs : after.subs = ∅)
    (commands : s.commands.Perm (after.commands ++ lost))
    (calls : ∀ call, (after.calls call).id = (s.calls call).id ∧
      (after.calls call).phase = (s.calls call).phase)
    (used : ∀ {call}, ((∃ id, s.pending.lookup id = some call) ∨
      ∃ id method params, .call id method params call ∈ lost) →
        (after.calls call).reply ≠ .held)
    (kept : ∀ {call}, (∀ id, s.pending.lookup id ≠ some call) →
      (∀ id method params, .call id method params call ∉ lost) →
        (after.calls call).reply = (s.calls call).reply) :
    Effect s after [] lost where
  commands := by simpa using commands
  unopened := by simp
  callIds call := (calls call).1
  streamIds _ := by rw [streamIds]
  counters := counters
  filed found := by simp [pending] at found
  routed found := by simp [subs] at found
  kept call := by
    by_cases filed : ∃ id, s.pending.lookup id = some call
    · obtain ⟨id, found⟩ := filed
      exact .inr ⟨used (.inl ⟨id, found⟩), id, by simp [pending], .inl found⟩
    by_cases carried : ∃ id method params, .call id method params call ∈ lost
    · obtain ⟨id, method, params, mem⟩ := carried
      exact .inr ⟨used (.inr ⟨id, method, params, mem⟩), id, by simp [pending],
        .inr ⟨method, params, mem⟩⟩
    · push Not at filed carried
      exact .inl (kept filed carried)
  lost mem := .inr (used (.inr ⟨_, _, _, mem⟩))
  unfiled found := .inr (used (.inl ⟨_, found⟩))
  resolved := fun {call result} resolved => .inl ((calls call).2 ▸ resolved)

theorem ending (sub : String) (err : RpcError) : Effect s (s.endSub sub err) [] [] := by
  rcases endSub_cases s sub err with same | ⟨stream, streams, _, sink, ended⟩
  · rw [same]
    exact moving (.of_fields rfl rfl rfl rfl rfl rfl) (.refl _) (by simp) (by simp) rfl
  · rw [ended]
    refine moving ⟨?_, ⟨rfl, rfl, rfl⟩, rfl, fun _ _ => lookup_of_erase⟩ (.refl _) (by simp)
      (by simp) rfl
    rcases sink with rfl | rfl
    · exact fun _ => rfl
    · exact stream_id rfl

theorem delivering (sub : String) (seq : UInt64) (update : SubUpdate) (mode : Delivery) :
    Effect s (s.deliver sub seq update mode).1 [] [] := by
  rcases deliver_cases s sub seq update mode with
    same | unrouted | ⟨stream, delivered, _, _, _, pushed⟩
  · rw [same]
    exact moving (.of_fields rfl rfl rfl rfl rfl rfl) (.refl _) (by simp) (by simp) rfl
  · rw [unrouted]
    exact moving ⟨fun _ => rfl, ⟨rfl, rfl, rfl⟩, rfl, fun _ _ => lookup_of_erase⟩ (.refl _)
      (by simp) (by simp) rfl
  · rw [pushed]
    exact moving ⟨stream_id rfl, ⟨rfl, rfl, rfl⟩, rfl, fun _ _ => id⟩ (.refl _) (by simp)
      (by simp) rfl

theorem leaving : Effect s s.leave [] s.engine.hand := by
  by_cases unhanded : ∀ cmd, s.engine ≠ .took cmd
  · rw [leave_of_unhanded unhanded]
    refine dropping rfl ⟨rfl, rfl, rfl⟩ rfl rfl ?_ ?_ ?_ ?_
    · simp [State.commands, State.dropTables, Engine.hand]
    · exact fun call => ⟨(dropTables_calls s call).1, (dropTables_calls s call).2.1⟩
    · intro call used
      rw [hand_of_unhanded unhanded] at used
      have dropped := (dropTables_calls s call).2.2.1 (by simpa using used)
      exact fun held => by simp [dropped] at held
    · intro call foreign _
      exact congrArg Call.reply ((dropTables_calls s call).2.2.2 foreign)
  · push Not at unhanded
    obtain ⟨cmd, holding⟩ := unhanded
    have left : s.leave = { (s.discard cmd).dropTables with engine := .leaving } := by
      rw [State.leave, holding]
    have pending : (s.discard cmd).pending = s.pending := by cases cmd <;> rfl
    rw [left, holding, Engine.hand]
    refine dropping ?_ ?_ rfl rfl ?_ ?_ ?_ ?_
    · cases cmd <;> rfl
    · cases cmd <;> exact ⟨rfl, rfl, rfl⟩
    · cases cmd <;>
        simp [State.commands, State.dropTables, State.discard, State.setReply, holding, Engine.hand]
    · intro call
      obtain ⟨id, phase, -⟩ := dropTables_calls (s.discard cmd) call
      exact ⟨id.trans (discard_id s cmd call), phase.trans (discard_phase s cmd call)⟩
    · intro call used held
      obtain ⟨-, -, dropped, spared⟩ := dropTables_calls (s.discard cmd) call
      rw [pending] at dropped spared
      by_cases filed : ∃ id, s.pending.lookup id = some call
      · have gone := dropped filed
        simp [gone] at held
      · obtain ⟨id, method, params, mem⟩ := used.resolve_left filed
        obtain rfl := List.mem_singleton.mp mem
        push Not at filed
        have gone := congrArg Call.reply (spared filed)
        rw [State.discard, State.setReply_reply, if_pos rfl] at gone
        exact Reply.noConfusion (gone.symm.trans held)
    · intro call foreign unheld
      obtain ⟨-, -, -, spared⟩ := dropTables_calls (s.discard cmd) call
      rw [pending] at spared
      have kept := congrArg Call.reply (spared foreign)
      refine kept.trans ?_
      cases cmd with
      | call id method params holder =>
          have distinct : call ≠ holder := fun same => unheld id method params (by simp [same])
          simp [State.discard, State.setReply_reply, distinct]
      | cancelCall => rfl
      | subscribe => rfl
      | write => rfl

theorem filing {id : UInt64} {method : String} {params : Payload} {call : ℕ}
    (holding : s.engine = .took (.call id method params call))
    (unfiled : s.pending.lookup id = none) :
    Effect s ((s.insertPending id call).send (.request id method params)) []
      [.call id method params call] := by
  have filed : (s.insertPending id call).send (.request id method params) =
      { s with
        pending := s.pending.insert id call
        engine := .sending (.request id method params) } := by
    simp [State.send, State.insertPending, State.removePending, unfiled]
  rw [filed]
  constructor
  · simp [State.commands, holding, Engine.hand]
  · simp
  · exact fun _ => rfl
  · exact fun _ => rfl
  · exact ⟨rfl, rfl, rfl⟩
  · intro other holder found
    rcases eq_or_ne other id with rfl | distinct
    · rw [AList.lookup_insert, Option.some.injEq] at found
      exact .inr ⟨method, params, by simp [found]⟩
    · exact .inl (by rwa [AList.lookup_insert_ne distinct] at found)
  · exact .inl
  · exact fun _ => .inl rfl
  · intro other method' params' holder mem
    simp only [List.mem_singleton, ClientCmd.call.injEq] at mem
    obtain ⟨rfl, -, -, rfl⟩ := mem
    exact .inl (AList.lookup_insert _)
  · intro other holder found
    rcases eq_or_ne other id with rfl | distinct
    · simp [unfiled] at found
    · exact .inl (by rwa [AList.lookup_insert_ne distinct])
  · exact .inl

theorem routing {id : UInt64} {topic : String} {stream : ℕ}
    (holding : s.engine = .took (.subscribe id topic stream)) :
    Effect s
      { s with
        subs := s.subs.insert (subKey id) stream
        engine := .sending (.subscribe id topic) } [] [.subscribe id topic stream] where
  commands := by simp [State.commands, holding, Engine.hand]
  unopened := by simp
  callIds _ := rfl
  streamIds _ := rfl
  counters := ⟨rfl, rfl, rfl⟩
  filed := .inl
  routed {key other} found := by
    rcases eq_or_ne key (subKey id) with rfl | distinct
    · rw [AList.lookup_insert, Option.some.injEq] at found
      exact .inr ⟨id, topic, by simp [found], rfl⟩
    · exact .inl (by rwa [AList.lookup_insert_ne distinct] at found)
  kept _ := .inl rfl
  lost mem := by simp at mem
  unfiled := .inl
  resolved := .inl

end Effect

/-- The steps that give out an id, or are out of ids. -/
inductive Numbers (platform : Platform) (s : State) : State → Prop
  | call {method : String} {params : Payload} {id : UInt64} :
      s.allocate platform = some id →
      Numbers platform s
        { s with
          nextId := s.nextId + 1
          calls := Function.update s.calls s.started ⟨some id, .enqueuing, .held⟩
          started := s.started + 1
          enqueuing := s.enqueuing ++ [.call id method params s.started] }
  | refusal :
      Numbers platform s
        { s with
          calls := Function.update s.calls s.started
            ⟨none, .resolved (.error .internal), .dropped⟩
          started := s.started + 1 }
  | subscription {topic : String} {id : UInt64} :
      s.allocate platform = some id →
      Numbers platform s
        { s with
          nextId := s.nextId + 1
          streams := Function.update s.streams s.opened ⟨some id, [], true⟩
          opened := s.opened + 1
          enqueuing := s.enqueuing ++ [.subscribe id topic s.opened] }

theorem Custody.unfiled_of_command (custody : Custody s) (ids : Ids s) {id : UInt64}
    {method : String} {params : Payload} {call : ℕ}
    (mem : .call id method params call ∈ s.commands) : s.pending.lookup id = none := by
  have bound := custody.copies_le (ids.named _ mem)
  have opening : 0 < s.openings id :=
    List.countP_pos_iff.mpr ⟨_, mem, by simp [ClientCmd.opens]⟩
  by_contra found
  obtain ⟨holder, found⟩ := Option.ne_none_iff_exists'.mp found
  rw [copies_of_filed found] at bound
  omega

theorem perm_of_lost {lost : List ClientCmd}
    (counts : ∀ cmd, s.enqueuing.count cmd + s.queue.count cmd + s.evicted.count cmd +
        s.engine.hand.count cmd =
      after.enqueuing.count cmd + after.queue.count cmd + after.evicted.count cmd +
        after.engine.hand.count cmd + lost.count cmd) :
    s.commands.Perm (after.commands ++ lost) := by
  have perm := @perm_of_counts s after [] lost (by simpa using counts)
  simpa using perm

theorem Custody.unfiled (custody : Custody s) (ids : Ids s) {cmd : ClientCmd}
    (mem : cmd ∈ s.commands) :
    ∀ id method params call, cmd = .call id method params call →
        s.pending.lookup id = none := by
  rintro id method params call rfl
  exact custody.unfiled_of_command ids mem

theorem mem_commands_of_found {index : ℕ} {cmd : ClientCmd}
    (found : s.enqueuing[index]? = some cmd ∨ s.evicted[index]? = some cmd) :
    cmd ∈ s.commands := by
  rcases found with found | found <;> simp [State.commands, List.mem_of_getElem? found]

theorem mem_commands_of_hand {cmd : ClientCmd} (holding : s.engine = .took cmd) :
    cmd ∈ s.commands := by
  simp [State.commands, holding, Engine.hand]

namespace Effect

theorem quiet (streams : after.streams = s.streams) (calls : after.calls = s.calls)
    (nextId : after.nextId = s.nextId) (started : after.started = s.started)
    (opened : after.opened = s.opened) (pending : after.pending = s.pending)
    (subs : after.subs = s.subs) (commands : after.commands = s.commands) :
    Effect s after [] [] :=
  moving (.of_fields streams nextId started opened pending subs) (by simp [commands]) (by simp)
    (by simp) calls

theorem enqueued {index : ℕ} {cmd : ClientCmd} (found : s.enqueuing[index]? = some cmd) :
    Effect s
      ({ s with
          enqueuing := s.enqueuing.eraseIdx index
          queue := s.queue ++ [cmd] }.proceed cmd) [] [] := by
  refine proceeding (.of_fields rfl rfl rfl rfl rfl rfl) (perm_of_counts ?_) (by simp) (by simp) rfl
  intro other
  simp only [count_found found, List.count_append, List.count_nil]
  omega

theorem evicting {index : ℕ} {cmd oldest : ClientCmd} {rest : List ClientCmd}
    (found : s.enqueuing[index]? = some cmd) (queue : s.queue = oldest :: rest) :
    Effect s
      ({ s with
          enqueuing := s.enqueuing.eraseIdx index
          queue := rest ++ [cmd]
          evicted := s.evicted ++ [oldest] }.proceed cmd) [] [] := by
  refine proceeding (.of_fields rfl rfl rfl rfl rfl rfl) (perm_of_counts ?_) (by simp) (by simp) rfl
  intro other
  simp only [count_found found, queue, List.count_append, List.count_cons, List.count_nil]
  omega

theorem failed {index : ℕ} {cmd : ClientCmd} (found : s.enqueuing[index]? = some cmd)
    (unfiled : ∀ id method params call, cmd = .call id method params call →
      s.pending.lookup id = none) :
    Effect s ({ s with enqueuing := s.enqueuing.eraseIdx index }.fail cmd).1 [] [cmd] := by
  refine failing (.of_fields rfl rfl rfl rfl rfl rfl) (perm_of_lost ?_) unfiled rfl
  intro other
  simp only [count_found found]
  omega

theorem degraded {index : ℕ} {id : UInt64} (found : s.evicted[index]? = some (.cancelCall id)) :
    Effect s { s with evicted := s.evicted.eraseIdx index, prune := true } [] [.cancelCall id] := by
  refine moving (.of_fields rfl rfl rfl rfl rfl rfl) (perm_of_counts ?_) (by simp) (by simp) rfl
  intro other
  simp only [count_found found, List.count_nil]
  omega

theorem displaced {index : ℕ} {cmd : ClientCmd} (found : s.evicted[index]? = some cmd)
    (unfiled : ∀ id method params call, cmd = .call id method params call →
      s.pending.lookup id = none) :
    Effect s ({ s with evicted := s.evicted.eraseIdx index }.discard cmd) [] [cmd] := by
  refine discarded (.of_fields rfl rfl rfl rfl rfl rfl) (perm_of_lost ?_) unfiled rfl
  intro other
  simp only [count_found found]
  omega

theorem cancelled {call : ℕ} {id : UInt64} :
    Effect s ({ s with queue := s.queue ++ [ClientCmd.cancelCall id] }.setPhase call .gone)
      [.cancelCall id] [] := by
  refine phasing (.of_fields rfl rfl rfl rfl rfl rfl) (perm_of_counts ?_)
    (by simp [ClientCmd.opens]) (by simp) rfl (by simp)
  intro other
  simp only [List.count_append, List.count_nil]
  omega

theorem taken {cmd : ClientCmd} {rest : List ClientCmd} (parked : s.engine = .parked)
    (queue : s.queue = cmd :: rest) :
    Effect s { s with queue := rest, engine := .took cmd } [] [] := by
  refine moving (.of_fields rfl rfl rfl rfl rfl rfl) (perm_of_counts ?_) (by simp) (by simp) rfl
  intro other
  simp only [queue, parked, Engine.hand, List.count_cons, List.count_nil]
  omega

theorem drained {cmd : ClientCmd} {rest : List ClientCmd} (queue : s.queue = cmd :: rest)
    (unfiled : ∀ id method params call, cmd = .call id method params call →
      s.pending.lookup id = none) :
    Effect s ({ s with queue := rest }.discard cmd) [] [cmd] := by
  refine discarded (.of_fields rfl rfl rfl rfl rfl rfl) (perm_of_lost ?_) unfiled rfl
  intro other
  simp only [queue, List.count_cons, List.count_nil]
  omega

theorem disconnected {engine : Engine} {attempt : ℕ} (unhanded : ∀ cmd, s.engine ≠ .took cmd)
    (outcome : engine = .dialing ∨ engine = .leaving) :
    Effect s { s.dropTables with engine, attempt } [] [] := by
  have hand : engine.hand = [] := by rcases outcome with rfl | rfl <;> rfl
  refine dropping rfl ⟨rfl, rfl, rfl⟩ rfl rfl ?_ ?_ ?_ ?_
  · simp [State.commands, State.dropTables, hand, hand_of_unhanded unhanded]
  · exact fun call => ⟨(dropTables_calls s call).1, (dropTables_calls s call).2.1⟩
  · intro call used
    have dropped := (dropTables_calls s call).2.2.1 (by simpa using used)
    exact fun held => by simp [dropped] at held
  · intro call foreign _
    exact congrArg Call.reply ((dropTables_calls s call).2.2.2 foreign)

theorem unsent {id : UInt64} {method : String} {params : Payload} {engine : Engine} {attempt : ℕ}
    (sending : s.engine = .sending (.request id method params))
    (outcome : engine = .dialing ∨ engine = .leaving) :
    Effect s { (s.removePending id (.sent (.error .internal))).dropTables with engine, attempt }
      [] [] := by
  have hand : engine.hand = [] := by rcases outcome with rfl | rfl <;> rfl
  refine dropping (s.removePending_streams _ _) ?_ rfl rfl ?_ ?_ ?_ ?_
  · obtain ⟨calls, pending, eq⟩ := s.removePending_eq id (.sent (.error .internal))
    simp [State.dropTables, eq]
  · simp [State.commands, State.dropTables, hand, hand_of_unhanded, sending]
  · exact fun call => ⟨(unsent_calls s id call).1, (unsent_calls s id call).2.1⟩
  · intro call used
    have failed := (unsent_calls s id call).2.2.1 (by simpa using used)
    rcases failed with told | dropped
    · exact fun held => by simp [told] at held
    · exact fun held => by simp [dropped] at held
  · intro call foreign _
    exact congrArg Call.reply ((unsent_calls s id call).2.2.2 foreign)

theorem forgotten {id : UInt64} {method : String} {params : Payload} {call : ℕ}
    (holding : s.engine = .took (.call id method params call))
    (unfiled : ∀ other method' params' holder, ClientCmd.call id method params call =
      .call other method' params' holder → s.pending.lookup other = none) :
    Effect s { s.setReply call .dropped with engine := .parked } []
      [.call id method params call] := by
  refine @discarded s { s with engine := .parked } (.call id method params call)
    (.of_fields rfl rfl rfl rfl rfl rfl) (perm_of_lost ?_) unfiled rfl
  intro other
  simp [holding, Engine.hand]

theorem cancelling {id : UInt64} (holding : s.engine = .took (.cancelCall id)) :
    Effect s { s.removePending id .dropped with engine := .parked } [] [.cancelCall id] := by
  refine removing (.of_fields rfl rfl rfl rfl rfl rfl) (perm_of_lost ?_) (by simp) (by simp) rfl
  intro other
  simp [holding, Engine.hand]

theorem writing {topic : String} {payload : Payload}
    (holding : s.engine = .took (.write topic payload)) :
    Effect s { s with engine := .sending (.write topic payload) } [] [.write topic payload] := by
  refine moving (.of_fields rfl rfl rfl rfl rfl rfl) (perm_of_counts ?_) (by simp) (by simp) rfl
  intro other
  simp only [holding, Engine.hand, List.count_nil]
  omega

theorem wrote (topic : String) (payload : Payload) :
    Effect s { s with enqueuing := s.enqueuing ++ [.write topic payload] }
      [.write topic payload] [] := by
  refine moving (.of_fields rfl rfl rfl rfl rfl rfl) (perm_of_counts ?_)
    (by simp [ClientCmd.opens]) (by simp) rfl
  intro other
  simp only [List.count_append, List.count_nil]
  omega

theorem streaming {stream : ℕ} {next : Stream} (same : next.id = (s.streams stream).id) :
    Effect s { s with streams := Function.update s.streams stream next } [] [] :=
  moving ⟨stream_id same, ⟨rfl, rfl, rfl⟩, rfl, fun _ _ => id⟩ (.refl _) (by simp)
    (by simp) rfl

theorem rephased {mid : State} {call : ℕ} {phase : Phase} (same : Untouched s mid)
    (commands : mid.commands = s.commands) (calls : mid.calls = s.calls)
    (unresolved : ∀ result, phase ≠ .resolved result) :
    Effect s (mid.setPhase call phase) [] [] :=
  phasing same (by simp [commands]) (by simp) (by simp) calls
    fun result ended => absurd ended (unresolved result)

end Effect

theorem Took.effect (ids : Ids s) (custody : Custody s)
    (took : Took codec config platform s input after emitted) :
    Numbers platform s after ∨ ∃ made lost, Effect s after made lost := by
  have quiet {after : State} (effect : Effect s after [] []) :
      Numbers platform s after ∨ ∃ made lost, Effect s after made lost :=
        .inr ⟨[], [], effect⟩
  cases took with
  | called numbered => exact .inl (.call numbered)
  | unnumbered => exact .inl .refusal
  | subscribed numbered => exact .inl (.subscription numbered)
  | wrote => exact .inr ⟨_, [], .wrote _ _⟩
  | enqueued found => exact quiet (.enqueued found)
  | evicting found _ queue => exact quiet (.evicting found queue)
  | failed found =>
      exact .inr ⟨[], _, .failed found
        (custody.unfiled ids (mem_commands_of_found (.inl found)))⟩
  | degraded found => exact .inr ⟨[], _, .degraded found⟩
  | displaced found =>
      exact .inr ⟨[], _, .displaced found
        (custody.unfiled ids (mem_commands_of_found (.inr found)))⟩
  | resolved waiting received =>
      refine quiet (.phasing (.of_fields rfl rfl rfl rfl rfl rfl) (.refl _) (by simp) (by simp) rfl
        fun result _ held => ?_)
      simp [held, State.received] at received
  | abandoned => exact quiet (.rephased (.of_fields rfl rfl rfl rfl rfl rfl) rfl rfl (by simp))
  | cancelled => exact .inr ⟨_, [], .cancelled⟩
  | refused => exact quiet (.rephased (.of_fields rfl rfl rfl rfl rfl rfl) rfl rfl (by simp))
  | requested => exact quiet (.rephased (.of_fields rfl rfl rfl rfl rfl rfl) rfl rfl (by simp))
  | handed => exact quiet (.streaming rfl)
  | unlistened => exact quiet (.streaming rfl)
  | ignored => exact quiet (.quiet rfl rfl rfl rfl rfl rfl rfl rfl)
  | dialed dialing phase =>
      refine quiet (.quiet rfl rfl rfl rfl rfl rfl rfl ?_)
      rcases phase with rfl | rfl <;> simp [State.commands, dialing, Engine.hand]
  | redialing => exact quiet (.quiet rfl rfl rfl rfl rfl rfl rfl rfl)
  | greeted was | welcomed was | pinging was | sent was | pruning was | swept was | spared was
  | closed was | halted was =>
      exact quiet (.quiet rfl rfl rfl rfl rfl rfl rfl (by simp [State.commands, was, Engine.hand]))
  | lost unhanded _ outcome => exact quiet (.disconnected unhanded.1 outcome)
  | unsent sending outcome => exact quiet (.unsent sending outcome)
  | left => exact .inr ⟨[], s.engine.hand, .leaving⟩
  | answered =>
      exact quiet (.removing (.of_fields rfl rfl rfl rfl rfl rfl) (by simp [State.commands])
        (by simp) (by simp) rfl)
  | declined => exact quiet (.ending _ _)
  | unmatched => exact quiet (.quiet rfl rfl rfl rfl rfl rfl rfl rfl)
  | delivered => exact quiet (.delivering _ _ _ _)
  | broken => exact quiet (.ending _ _)
  | took parked queue => exact quiet (.taken parked queue)
  | filed holding =>
      exact .inr ⟨[], _, .filing holding
        (custody.unfiled_of_command ids (mem_commands_of_hand holding))⟩
  | forgotten holding =>
      exact .inr ⟨[], _, .forgotten holding
        (custody.unfiled ids (mem_commands_of_hand holding))⟩
  | cancelling holding => exact .inr ⟨[], _, .cancelling holding⟩
  | subscribing holding => exact .inr ⟨[], _, .routing holding⟩
  | writing holding => exact .inr ⟨[], _, .writing holding⟩
  | reclaimed sweeping =>
      exact quiet (.removing (.of_fields rfl rfl rfl rfl rfl rfl)
        (by simp [State.commands, sweeping, Engine.hand]) (by simp) (by simp) rfl)
  | drained _ queue =>
      exact .inr ⟨[], _, .drained queue (custody.unfiled ids (by simp [State.commands, queue]))⟩

theorem Ids.fresh (ids : Ids s) {id : UInt64} (numbered : s.allocate platform = some id) :
    id.toNat = s.nextId ∧ s.nextId < platform.usizeMax ∧
      (∀ call, (s.calls call).id ≠ some id) ∧
      ∀ stream, (s.streams stream).id ≠ some id := by
  unfold State.allocate at numbered
  rw [Option.ite_none_right_eq_some, Option.some.injEq] at numbered
  obtain ⟨room, rfl⟩ := numbered
  have value : (UInt64.ofNat s.nextId).toNat = s.nextId := by
    have fits := platform.fits
    rw [UInt64.toNat_ofNat', Nat.mod_eq_of_lt]
    exact room.trans fits
  refine ⟨value, room, ?_, ?_⟩
  · intro call has
    exact absurd (ids.call_lt has).1 (by omega)
  · intro stream has
    exact absurd (ids.stream_lt has).1 (by omega)

/-- No command opens a request whose id belongs to nobody. -/
theorem Ids.unopened (ids : Ids s) {id : UInt64}
    (calls : ∀ call, (s.calls call).id ≠ some id)
    (streams : ∀ stream, (s.streams stream).id ≠ some id) : s.copies id = 0 := by
  have openings : s.openings id = 0 := by
    unfold State.openings
    rw [List.countP_eq_zero]
    intro cmd mem opens
    have names := ids.named cmd mem
    cases cmd with
    | call =>
        obtain rfl := by simpa [ClientCmd.opens] using opens
        exact calls _ names
    | subscribe =>
        obtain rfl := by simpa [ClientCmd.opens] using opens
        exact streams _ names
    | cancelCall => simp [ClientCmd.opens] at opens
    | write => simp [ClientCmd.opens] at opens
  have unfiled : s.pending.lookup id = none := by
    by_contra found
    obtain ⟨call, found⟩ := Option.ne_none_iff_exists'.mp found
    exact calls call (ids.filed found)
  rw [copies_of_unfiled unfiled, openings]

theorem mem_commands_enqueuing {cmd new : ClientCmd} :
    cmd ∈ { s with enqueuing := s.enqueuing ++ [new] }.commands ↔
      cmd ∈ s.commands ∨ cmd = new := by
  simp only [State.commands, List.mem_append, List.mem_singleton]
  tauto

theorem openings_enqueuing (new : ClientCmd) (id : UInt64) :
    { s with enqueuing := s.enqueuing ++ [new] }.openings id =
      s.openings id + if new.opens = some id then 1 else 0 := by
  simp only [State.openings, State.commands, List.countP_append, List.countP_singleton,
    decide_eq_true_eq]
  omega

theorem Ids.old_call (ids : Ids s) {call : ℕ} {id : UInt64}
    (has : (s.calls call).id = some id) (next : Call) :
    Function.update s.calls s.started next call = s.calls call :=
  Function.update_of_ne (ids.call_lt has).2.ne _ _

theorem Ids.old_stream (ids : Ids s) {stream : ℕ} {id : UInt64}
    (has : (s.streams stream).id = some id) (next : Stream) :
    Function.update s.streams s.opened next stream = s.streams stream :=
  Function.update_of_ne (ids.stream_lt has).2.ne _ _

theorem Ids.numbers (ids : Ids s) (numbers : Numbers platform s after) :
    Ids after := by
  cases numbers with
  | @call method params id numbered =>
      obtain ⟨value, room, freshCall, freshStream⟩ := ids.fresh numbered
      have newId : ∀ {call other},
        (Function.update s.calls s.started ⟨some id, .enqueuing, .held⟩
          call).id = some other →
          call = s.started ∧ other = id ∨ call ≠ s.started ∧
          (s.calls call).id = some other := by
        intro call other has
        rcases eq_or_ne call s.started with rfl | distinct
        · exact .inl ⟨rfl, by simpa using has.symm⟩
        · exact .inr ⟨distinct, by rwa [Function.update_of_ne distinct] at has⟩
      constructor
      · intro call other has
        rcases newId has with ⟨rfl, rfl⟩ | ⟨_, old⟩
        · exact ⟨by simp only [value]; omega, Nat.lt_succ_self _⟩
        · obtain ⟨below, before⟩ := ids.call_lt old
          exact ⟨Nat.lt_succ_of_lt below, Nat.lt_succ_of_lt before⟩
      · intro stream other has
        obtain ⟨below, before⟩ := ids.stream_lt has
        exact ⟨Nat.lt_succ_of_lt below, before⟩
      · intro call other shared has same
        rcases newId has with ⟨first, rfl⟩ | ⟨_, old⟩ <;>
          rcases newId same with ⟨second, sameId⟩ | ⟨_, old'⟩
        · exact first.trans second.symm
        · exact absurd old' (freshCall other)
        · exact absurd (sameId ▸ old) (freshCall call)
        · exact ids.call_inj old old'
      · exact ids.stream_inj
      · intro call stream other has
        rcases newId has with ⟨rfl, rfl⟩ | ⟨_, old⟩
        · exact freshStream stream
        · exact ids.apart old
      · intro cmd mem
        rcases mem_commands_enqueuing.mp mem with old | rfl
        · have names := ids.named cmd old
          cases cmd with
          | call => exact (congrArg Call.id (ids.old_call names _)).trans names
          | subscribe => exact names
          | cancelCall => trivial
          | write => trivial
        · simp [State.Names]
      · intro other call found
        exact (congrArg Call.id (ids.old_call (ids.filed found) _)).trans (ids.filed found)
      · exact ids.routed
  | refusal =>
      have oldId : ∀ {call other}, (Function.update s.calls s.started
          ⟨none, .resolved (.error .internal), .dropped⟩ call).id = some other →
          (s.calls call).id = some other := by
        intro call other has
        rcases eq_or_ne call s.started with rfl | distinct
        · simp at has
        · rwa [Function.update_of_ne distinct] at has
      constructor
      · intro call id has
        obtain ⟨below, before⟩ := ids.call_lt (oldId has)
        exact ⟨below, Nat.lt_succ_of_lt before⟩
      · exact ids.stream_lt
      · exact fun has same => ids.call_inj (oldId has) (oldId same)
      · exact ids.stream_inj
      · exact fun has => ids.apart (oldId has)
      · intro cmd mem
        have names := ids.named cmd mem
        cases cmd with
        | call => exact (congrArg Call.id (ids.old_call names _)).trans names
        | subscribe => exact names
        | cancelCall => trivial
        | write => trivial
      · intro other call found
        exact (congrArg Call.id (ids.old_call (ids.filed found) _)).trans (ids.filed found)
      · exact ids.routed
  | @subscription topic id numbered =>
      obtain ⟨value, room, freshCall, freshStream⟩ := ids.fresh numbered
      have newId : ∀ {stream other}, (Function.update s.streams s.opened ⟨some id, [], true⟩
          stream).id = some other →
          stream = s.opened ∧ other = id ∨ (s.streams stream).id = some other := by
        intro stream other has
        rcases eq_or_ne stream s.opened with rfl | distinct
        · exact .inl ⟨rfl, by simpa using has.symm⟩
        · exact .inr (by rwa [Function.update_of_ne distinct] at has)
      constructor
      · intro call other has
        obtain ⟨below, before⟩ := ids.call_lt has
        exact ⟨Nat.lt_succ_of_lt below, before⟩
      · intro stream other has
        rcases newId has with ⟨rfl, rfl⟩ | old
        · exact ⟨by simp only [value]; omega, Nat.lt_succ_self _⟩
        · obtain ⟨below, before⟩ := ids.stream_lt old
          exact ⟨Nat.lt_succ_of_lt below, Nat.lt_succ_of_lt before⟩
      · exact ids.call_inj
      · intro stream other shared has same
        rcases newId has with ⟨first, rfl⟩ | old <;>
          rcases newId same with ⟨second, sameId⟩ | old'
        · exact first.trans second.symm
        · exact absurd old' (freshStream other)
        · exact absurd (sameId ▸ old) (freshStream stream)
        · exact ids.stream_inj old old'
      · intro call stream other has same
        rcases newId same with ⟨rfl, rfl⟩ | old
        · exact freshCall call has
        · exact ids.apart has old
      · intro cmd mem
        rcases mem_commands_enqueuing.mp mem with old | rfl
        · have names := ids.named cmd old
          cases cmd with
          | call => exact names
          | subscribe => exact (congrArg Stream.id (ids.old_stream names _)).trans names
          | cancelCall => trivial
          | write => trivial
        · simp [State.Names]
      · exact ids.filed
      · intro key stream found
        obtain ⟨other, has, same⟩ := ids.routed found
        exact ⟨other, (congrArg Stream.id (ids.old_stream has _)).trans has, same⟩

theorem Custody.numbers (custody : Custody s) (ids : Ids s)
    (numbers : Numbers platform s after) : Custody after := by
  cases numbers with
  | @call method params id numbered =>
      obtain ⟨-, -, freshCall, freshStream⟩ := ids.fresh numbered
      have fresh := ids.unopened freshCall freshStream
      have openings : ∀ other, State.openings
          { s with
            nextId := s.nextId + 1
            calls := Function.update s.calls s.started ⟨some id, .enqueuing, .held⟩
            started := s.started + 1
            enqueuing := s.enqueuing ++ [.call id method params s.started] } other =
          s.openings other + if some id = some other then 1 else 0 :=
        fun other => openings_enqueuing (.call id method params s.started) other
      constructor
      · intro call other has
        rcases eq_or_ne call s.started with rfl | distinct
        · obtain rfl : id = other := by simpa using has
          rw [State.copies] at fresh
          simp only [State.copies, openings, Function.update_self, if_true]
          omega
        · simp only [Function.update_of_ne distinct] at has ⊢
          have foreign : id ≠ other := fun same => freshCall call (same ▸ has)
          rw [State.copies, openings, if_neg (by simpa using foreign), ← custody.owed has]
          rfl
      · intro call unnumbered
        rcases eq_or_ne call s.started with rfl | distinct
        · simp at unnumbered
        · simp only [Function.update_of_ne distinct] at unnumbered ⊢
          exact custody.unowned unnumbered
      · intro stream other has
        have foreign : id ≠ other := fun same => freshStream stream (same ▸ has)
        rw [openings, if_neg (by simpa using foreign)]
        exact custody.once has
      · intro call result resolved
        rcases eq_or_ne call s.started with rfl | distinct
        · simp at resolved
        · simp only [Function.update_of_ne distinct] at resolved ⊢
          exact custody.resolved resolved
  | refusal =>
      constructor
      · intro call id has
        rcases eq_or_ne call s.started with rfl | distinct
        · simp at has
        · simp only [Function.update_of_ne distinct] at has ⊢
          exact custody.owed has
      · intro call unnumbered
        rcases eq_or_ne call s.started with rfl | distinct
        · simp
        · simp only [Function.update_of_ne distinct] at unnumbered ⊢
          exact custody.unowned unnumbered
      · exact custody.once
      · intro call result resolved
        rcases eq_or_ne call s.started with rfl | distinct
        · simp
        · simp only [Function.update_of_ne distinct] at resolved ⊢
          exact custody.resolved resolved
  | @subscription topic id numbered =>
      obtain ⟨-, -, freshCall, freshStream⟩ := ids.fresh numbered
      have fresh := ids.unopened freshCall freshStream
      have openings : ∀ other, State.openings
          { s with
            nextId := s.nextId + 1
            streams := Function.update s.streams s.opened ⟨some id, [], true⟩
            opened := s.opened + 1
            enqueuing := s.enqueuing ++ [.subscribe id topic s.opened] } other =
          s.openings other + if some id = some other then 1 else 0 :=
        fun other => openings_enqueuing (.subscribe id topic s.opened) other
      constructor
      · intro call other has
        have foreign : id ≠ other := fun same => freshCall call (same ▸ has)
        rw [State.copies, openings, if_neg (by simpa using foreign), ← custody.owed has]
        rfl
      · exact custody.unowned
      · intro stream other has
        rw [openings]
        rcases eq_or_ne stream s.opened with rfl | distinct
        · obtain rfl : id = other := by simpa using has
          rw [State.copies] at fresh
          rw [if_pos rfl]
          omega
        · simp only [Function.update_of_ne distinct] at has
          have foreign : id ≠ other := fun same => freshStream stream (same ▸ has)
          rw [if_neg (by simpa using foreign)]
          exact custody.once has
      · exact custody.resolved

theorem Custody.held_of_filed (custody : Custody s) (ids : Ids s) {id : UInt64} {call : ℕ}
    (found : s.pending.lookup id = some call) : (s.calls call).reply = .held := by
  by_contra used
  have owed := custody.owed (ids.filed found)
  rw [if_neg used, copies_of_filed found] at owed
  omega

theorem Custody.held_of_command (custody : Custody s) (ids : Ids s) {id : UInt64}
    {method : String} {params : Payload} {call : ℕ}
    (mem : .call id method params call ∈ s.commands) : (s.calls call).reply = .held := by
  by_contra used
  have owed := custody.owed (ids.named _ mem)
  have opening : 0 < s.openings id :=
    List.countP_pos_iff.mpr ⟨_, mem, by simp [ClientCmd.opens]⟩
  rw [if_neg used, State.copies] at owed
  omega

theorem Took.keeps (took : Took codec config platform s input after emitted) (ids : Ids s)
    (custody : Custody s) {call : ℕ} (started : call < s.started) :
    (after.calls call).id = (s.calls call).id ∧
      ((s.calls call).reply ≠ .held → (after.calls call).reply = (s.calls call).reply) := by
  rcases took.effect ids custody with numbers | ⟨made, lost, effect⟩
  · have same : after.calls call = s.calls call := by
      cases numbers with
      | call => exact Function.update_of_ne started.ne _ _
      | refusal => exact Function.update_of_ne started.ne _ _
      | subscription => rfl
    exact ⟨by rw [same], fun _ => by rw [same]⟩
  · refine ⟨effect.callIds call, fun used => ?_⟩
    rcases effect.kept call with same | ⟨-, id, -, found | ⟨method, params, mem⟩⟩
    · exact same
    · exact absurd (custody.held_of_filed ids found) used
    · exact absurd (custody.held_of_command ids (opens_of_lost effect mem rfl)) used

theorem custody_of_runs {allowed : State → Input → Prop} {log : List Record}
    (reached : Runs codec config platform allowed s log) :
    Ids s ∧ Custody s := by
  refine reached.invariant (fun s _ => Ids s ∧ Custody s) ?_ ?_
  · constructor
    · constructor <;> simp [State.commands, Engine.hand]
    · constructor <;> simp
  · rintro state log input after emitted _ _ stepped ⟨ids, custody⟩
    rcases (took_of_step stepped).effect ids custody with numbers | ⟨made, lost, effect⟩
    · exact ⟨ids.numbers numbers, custody.numbers ids numbers⟩
    · exact ⟨ids.effect effect, custody.effect ids effect⟩

end AimDb.Session.Client
