import AimDb.Session.Server.Isolation
import Mathlib.Algebra.BigOperators.Group.List.Basic

/-!
# What the numbers of a subscription count

A subscription counts its snapshots and then every update of its stream with the
loss told before it.  Whatever is dropped on the way, the number of a value frame
is the count at which its value was taken.
-/

namespace AimDb.Session.Server

open AimDb.Json AimDb.Numbering AimDb.Transition

variable {codec : EnvelopeCodec} {config : SessionConfig} {s after : State} {generation : ℕ}
  {log more : List Record}

def Record.adds (generation : ℕ) : Record → ℕ
  | .accepted _ origin snapshots => if origin = generation then snapshots else 0
  | .pulled origin update => if origin = generation then update.skipped.toNat + 1 else 0
  | _ => 0

def counted (generation : ℕ) (log : List Record) : ℕ := (log.map (Record.adds generation)).sum

def valueNumber (frame : Outbound) : Option ℕ := frame.numbered.map fun tag => tag.2.toNat

def Record.number (generation : ℕ) : Record → Option ℕ
  | .sent (some origin) frame => if origin = generation then valueNumber frame else none
  | _ => none

def numbers (generation : ℕ) (log : List Record) : List ℕ :=
  log.filterMap (Record.number generation)

def State.waiting (s : State) (generation : ℕ) : List ℕ :=
  (s.funnel.filter fun queued => queued.origin = generation).map fun queued =>
    queued.event.seq.toNat

/-- A value frame carries a snapshot of its subscription, or an update with the
count at which it was pulled. -/
inductive Genuine (log : List Record) (generation : ℕ) : Outbound → Prop
  | snapshot {sub : String} {seq : UInt64} {last : Bool} {topic : String} {ts : Stamp}
      {data : Payload} {snapshots : ℕ} :
      .accepted sub generation snapshots ∈ log → 0 < seq.toNat → seq.toNat ≤ snapshots →
      Genuine log generation (.snapshot sub seq last topic ts data)
  | event {before after : List Record} {sub : String} {snapshots : ℕ} {update : SubUpdate}
      {seq : UInt64} :
      .accepted sub generation snapshots ∈ log →
        log = before ++ .pulled generation update :: after →
      seq.toNat = counted generation before + (update.skipped.toNat + 1) →
      Genuine log generation (.event sub seq update.topic update.ts update.data)

theorem Genuine.append {frame : Outbound} (genuine : Genuine log generation frame)
    (more : List Record) :
    Genuine (log ++ more) generation frame := by
  cases genuine with
  | snapshot accepted positive within =>
      exact .snapshot (List.mem_append_left _ accepted) positive within
  | @event before after sub snapshots update seq accepted split count =>
      exact @Genuine.event _ _ before (after ++ more) sub snapshots update seq
        (List.mem_append_left _ accepted) (by rw [split, List.append_assoc, List.cons_append]) count

@[simp] theorem counted_append :
    counted generation (log ++ more) = counted generation log + counted generation more := by
  simp [counted]

@[simp] theorem numbers_append :
    numbers generation (log ++ more) = numbers generation log ++ numbers generation more :=
  List.filterMap_append

structure Counts (s : State) (log : List Record) : Prop where
  rising : ∀ generation,
    Rising 0 (numbers generation log ++ s.waiting generation) (counted generation log)
  pumps : ∀ pump ∈ s.subs, pump.seq.toNat = counted pump.generation log ∧
    ∃ snapshots, .accepted pump.subId pump.generation snapshots ∈ log
  queued : ∀ queued ∈ s.funnel, Genuine log queued.origin queued.event.frame
  sent : ∀ origin frame, .sent origin frame ∈ log → frame.numbered ≠ none →
    ∃ generation, origin = some generation ∧ Genuine log generation frame
  fresh : s.closed = false → ∀ generation, s.nextGeneration ≤ generation →
    counted generation log = 0

def Record.Uncounted : Record → Prop
  | .accepted _ _ _ | .pulled _ _ => False
  | .sent _ frame => frame.numbered = none
  | _ => True

theorem Record.Plain.uncounted {record : Record} (plain : record.Plain) : record.Uncounted := by
  cases record with
  | sent origin frame =>
      cases origin with
      | none => cases frame <;> first | rfl | exact plain.elim
      | some _ => cases frame <;> exact plain.elim
  | failed _ => trivial
  | accepted _ _ _ | pulled _ _ | queued _ _ | drained _ _ _ | ended _ _ | reset =>
      exact plain.elim

theorem counted_of_uncounted (uncounted : ∀ record ∈ more, record.Uncounted) :
    counted generation more = 0 ∧ numbers generation more = [] := by
  induction more with
  | nil => exact ⟨rfl, rfl⟩
  | cons record more inductionHypothesis =>
      obtain ⟨first, others⟩ := List.forall_mem_cons.mp uncounted
      obtain ⟨count, none_numbered⟩ := inductionHypothesis others
      have adds : record.adds generation = 0 ∧ record.number generation = none := by
        cases record with
        | accepted _ _ _ | pulled _ _ => exact first.elim
        | sent origin frame =>
            have unnumbered : frame.numbered = none := first
            cases origin <;> simp [Record.adds, Record.number, valueNumber, unnumbered]
        | _ => exact ⟨rfl, rfl⟩
      constructor
      · rw [counted, List.map_cons, List.sum_cons, adds.1, Nat.zero_add]
        exact count
      · rw [numbers, List.filterMap_cons, adds.2]
        exact none_numbered

/-- Records that count nothing, while some queued events and pumps go. -/
theorem Counts.uncounted (counts : Counts s log) (uncounted : ∀ record ∈ more, record.Uncounted)
    (funnel : after.funnel.Sublist s.funnel)
    (subs : ∀ pump ∈ after.subs, ∃ same ∈ s.subs, pump.seq = same.seq ∧
      pump.generation = same.generation ∧ pump.subId = same.subId)
    (opened : after.closed = false → s.closed = false)
    (generations : after.nextGeneration = s.nextGeneration) : Counts after (log ++ more) where
  rising generation := by
    obtain ⟨count, none_numbered⟩ := @counted_of_uncounted generation more uncounted
    rw [numbers_append, counted_append, count, none_numbered, List.append_nil, Nat.add_zero]
    exact (counts.rising generation).sublist (((funnel.filter _).map _).append_left _)
  pumps pump mem := by
    obtain ⟨same, was, seq, generation, sub⟩ := subs pump mem
    obtain ⟨count, snapshots, accepted⟩ := counts.pumps same was
    rw [counted_append, (counted_of_uncounted uncounted).1, seq, generation, sub]
    exact ⟨count, snapshots, List.mem_append_left _ accepted⟩
  queued queued mem := (counts.queued queued (funnel.subset mem)).append _
  sent origin frame mem numbered := by
    rcases List.mem_append.mp mem with old | new
    · obtain ⟨generation, same, genuine⟩ := counts.sent origin frame old numbered
      exact ⟨generation, same, genuine.append _⟩
    · exact absurd (uncounted _ new) numbered
  fresh isOpen generation above := by
    rw [generations] at above
    rw [counted_append, (counted_of_uncounted uncounted).1,
      counts.fresh (opened isOpen) generation above]

theorem numbers_said (frames : List (Option ℕ × Outbound)) :
    (numbers generation (said codec frames)).Sublist
      (frames.filterMap fun frame => Record.number generation (.sent frame.1 frame.2)) := by
  rw [numbers, said, List.filterMap_map]
  exact List.filter_sublist.filterMap _

theorem Sent.uncounted_failed {frames : List (Option ℕ × Outbound)} {alive : Bool}
    {records : List Record} (sent : Sent codec frames alive records) :
    ∃ front rest failed, frames = front ++ rest ∧ records = said codec front ++ failed ∧
      ∀ record ∈ failed, record.Uncounted := by
  obtain ⟨front, rest, failed, split, same, fails⟩ := sent.front
  refine ⟨front, rest, failed, split, same, fun record mem => ?_⟩
  obtain ⟨frame, rfl⟩ := fails record mem
  trivial

theorem Sent.numbers {frames : List (Option ℕ × Outbound)} {alive : Bool} {records : List Record}
    (sent : Sent codec frames alive records) :
    counted generation records = 0 ∧ (Server.numbers generation records).Sublist
      (frames.filterMap fun frame => Record.number generation (.sent frame.1 frame.2)) := by
  obtain ⟨front, rest, failed, rfl, rfl, fails⟩ := sent.uncounted_failed
  obtain ⟨count, unnumbered⟩ := @counted_of_uncounted generation failed fails
  constructor
  · rw [counted_append, count, Nat.add_zero, counted, said, List.map_map]
    exact List.sum_eq_zero fun added mem => by
      obtain ⟨_, _, rfl⟩ := List.mem_map.mp mem
      rfl
  · rw [numbers_append, unnumbered, List.append_nil, List.filterMap_append]
    exact (numbers_said front).trans (List.sublist_append_left _ _)

theorem Sent.mem {frames : List (Option ℕ × Outbound)} {alive : Bool} {records : List Record}
    (sent : Sent codec frames alive records) {origin : Option ℕ} {frame : Outbound}
    (mem : .sent origin frame ∈ records) : (origin, frame) ∈ frames := by
  obtain ⟨front, rest, failed, rfl, rfl, fails⟩ := sent.front
  rcases List.mem_append.mp mem with said | failing
  · obtain ⟨found, kept, same⟩ := List.mem_map.mp said
    cases same
    exact List.mem_append_left _ (List.mem_of_mem_filter kept)
  · obtain ⟨_, same⟩ := fails _ failing
    cases same

theorem number_flushed (funnel : List Queued) :
    ((flushed funnel).filterMap fun frame => Record.number generation (.sent frame.1 frame.2)) =
      (funnel.filter fun queued => queued.origin = generation).map
        fun queued => queued.event.seq.toNat := by
  induction funnel with
  | nil => rfl
  | cons queued funnel inductionHypothesis =>
      by_cases own : queued.origin = generation
      · simpa [flushed, Record.number, valueNumber, own, SubEvent.frame, Outbound.numbered] using
          inductionHypothesis
      · simpa [flushed, Record.number, own] using inductionHypothesis

theorem Counts.flush (counts : Counts s log) (front rest : List Queued)
    (split : s.funnel = front ++ rest) {alive : Bool} (sent : Sent codec (flushed front) alive more)
    (closed : Bool) (subs : List Pump) (fewer : ∀ pump ∈ subs, pump ∈ s.subs)
    (cancels : Cancels)
    (opened : closed = false → s.closed = false) :
    Counts { s with funnel := rest, subs := subs, cancels := cancels, closed := closed }
      (log ++ more) where
  rising generation := by
    obtain ⟨count, fewer⟩ := @Sent.numbers codec generation _ _ _ sent
    rw [number_flushed] at fewer
    rw [numbers_append, counted_append, count, Nat.add_zero]
    refine (counts.rising generation).sublist ?_
    rw [List.append_assoc, State.waiting, State.waiting, split, List.filter_append, List.map_append]
    exact (fewer.append (List.Sublist.refl _)).append_left _
  pumps pump mem := by
    obtain ⟨count, snapshots, accepted⟩ := counts.pumps pump (fewer pump mem)
    rw [counted_append, (Sent.numbers sent).1]
    exact ⟨count, snapshots, List.mem_append_left _ accepted⟩
  queued queued mem :=
    (counts.queued queued (by rw [split]; exact List.mem_append_right _ mem)).append _
  sent origin frame mem numbered := by
    rcases List.mem_append.mp mem with old | new
    · obtain ⟨generation, same, genuine⟩ := counts.sent origin frame old numbered
      exact ⟨generation, same, genuine.append _⟩
    · obtain ⟨queued, queuedFirst, same⟩ := List.mem_map.mp (sent.mem new)
      cases same
      have was : queued ∈ s.funnel := by
        rw [split]
        exact List.mem_append_left _ queuedFirst
      exact ⟨queued.origin, rfl, (counts.queued queued was).append _⟩
  fresh isOpen generation above := by
    rw [counted_append, (Sent.numbers sent).1, counts.fresh (opened isOpen) generation above]

theorem rising_burst {sub : String} (seq : UInt64) (snapshots : List Snapshot)
    (inRange : seq.toNat + snapshots.length < 2 ^ 64) :
    Rising seq.toNat ((burst sub seq snapshots).filterMap valueNumber)
      (seq.toNat + snapshots.length) ∧
      ∀ frame ∈ burst sub seq snapshots, ∃ number last topic ts data,
        frame = .snapshot sub number last topic ts data ∧ seq.toNat < number.toNat ∧
          number.toNat ≤ seq.toNat + snapshots.length := by
  induction snapshots generalizing seq with
  | nil => exact ⟨.nil (Nat.le_refl _), by simp [burst]⟩
  | cons snapshot snapshots inductionHypothesis =>
      obtain ⟨topic, data, ts⟩ := snapshot
      rw [List.length_cons] at inRange ⊢
      have next : (seq + 1).toNat = seq.toNat + 1 := succ_toNat (by omega)
      obtain ⟨rising, frames⟩ := inductionHypothesis (seq + 1) (by omega)
      rw [next] at rising frames
      constructor
      · have first : Rising seq.toNat [seq.toNat + 1] (seq.toNat + 1) :=
          (Rising.nil (Nat.le_refl _)).push (Nat.lt_succ_self _)
        have number : valueNumber (.snapshot sub (seq + 1) snapshots.isEmpty topic ts data) =
            some (seq.toNat + 1) := by
          simp [valueNumber, Outbound.numbered, next]
        have all := first.append rising
        rw [Nat.add_right_comm] at all
        rw [burst, List.filterMap_cons_some number]
        exact all
      · intro frame mem
        rcases List.mem_cons.mp mem with rfl | later
        · exact ⟨_, _, _, _, _, rfl, by omega, by omega⟩
        · obtain ⟨number, last, topic, ts, data, same, above, within⟩ := frames frame later
          exact ⟨number, last, topic, ts, data, same, by omega, by omega⟩

theorem opening_number (sub : String) (snapshots : List Snapshot) :
    ((s.opening config sub snapshots).filterMap fun frame =>
        Record.number generation (.sent frame.1 frame.2)) =
      if s.nextGeneration = generation then (burst sub 0 snapshots).filterMap valueNumber
          else [] := by
  rw [State.opening, List.filterMap_map]
  by_cases own : s.nextGeneration = generation
  · have numbered (frame : Outbound) :
        Record.number generation (.sent (some s.nextGeneration) frame) = valueNumber frame := by
      rw [Record.number, if_pos own]
    have ack : valueNumber (.subscribed sub) = none := rfl
    rw [if_pos own, List.filterMap_append]
    simp only [Function.comp_def, numbered]
    cases config.acksSubscribe <;> simp [ack]
  · rw [if_neg own, List.filterMap_eq_nil_iff]
    intro frame _
    simp [Record.number, own]

variable (codec config) in
theorem Counts.opening (counts : Counts s log) {sub : String} {snapshots : List Snapshot}
    (table : Table config s) (isOpen : s.closed = false) (inRange : snapshots.length < 2 ^ 64)
    {alive : Bool} (sent : Sent codec (s.opening config sub snapshots) alive more)
    (funnel : after.funnel = s.funnel)
    (subs : ∀ pump ∈ after.subs, pump ∈ s.subs ∨
      pump.seq.toNat = snapshots.length ∧ pump.generation = s.nextGeneration ∧ pump.subId = sub)
    (later : after.closed = false → after.nextGeneration = s.nextGeneration + 1) :
    Counts after (log ++ .accepted sub s.nextGeneration snapshots.length :: more) := by
  obtain ⟨rising, frames⟩ := @rising_burst sub 0 snapshots (by simpa using inRange)
  rw [UInt64.toNat_zero, Nat.zero_add] at rising frames
  have accepted : Record.accepted sub s.nextGeneration snapshots.length ∈
      log ++ .accepted sub s.nextGeneration snapshots.length :: more := by simp
  have adds (generation : ℕ) :
      counted generation (.accepted sub s.nextGeneration snapshots.length :: more) =
        if s.nextGeneration = generation then snapshots.length else 0 := by
    have none_more := (@Sent.numbers codec generation _ _ _ sent).1
    rw [counted] at none_more ⊢
    rw [List.map_cons, List.sum_cons, none_more, Nat.add_zero]
    rfl
  constructor
  · intro generation
    have before := counts.rising generation
    have fewer := (@Sent.numbers codec generation _ _ _ sent).2
    have same : numbers generation (.accepted sub s.nextGeneration snapshots.length :: more) =
        numbers generation more := rfl
    rw [opening_number] at fewer
    rw [numbers_append, counted_append, adds, same, State.waiting, funnel]
    by_cases own : s.nextGeneration = generation
    · rw [if_pos own] at fewer ⊢
      rw [counts.fresh isOpen generation (Nat.le_of_eq own)] at before ⊢
      obtain ⟨sent_none, waiting_none⟩ := List.append_eq_nil_iff.mp before.eq_nil
      rw [State.waiting] at waiting_none
      rw [sent_none, waiting_none, List.nil_append, List.append_nil, Nat.zero_add]
      exact rising.sublist fewer
    · rw [if_neg own] at fewer ⊢
      rw [List.sublist_nil.mp fewer, List.append_nil, Nat.add_zero]
      exact before
  · intro pump mem
    rw [counted_append, adds]
    rcases subs pump mem with old | ⟨seq, generation, sub_same⟩
    · obtain ⟨count, number, was⟩ := counts.pumps pump old
      have older := table.generation_lt pump.ticket (Table.ticket_mem old)
      change pump.generation < s.nextGeneration at older
      rw [if_neg (by omega), Nat.add_zero]
      exact ⟨count, number, List.mem_append_left _ was⟩
    · rw [generation, if_pos rfl, counts.fresh isOpen _ (Nat.le_refl _), Nat.zero_add, sub_same]
      exact ⟨seq, _, accepted⟩
  · intro queued mem
    rw [funnel] at mem
    exact (counts.queued queued mem).append _
  · intro origin frame mem numbered
    rcases List.mem_append.mp mem with old | new
    · obtain ⟨generation, same, genuine⟩ := counts.sent origin frame old numbered
      exact ⟨generation, same, genuine.append _⟩
    · rcases List.mem_cons.mp new with same | later
      · cases same
      · obtain ⟨inner, inside, same⟩ := List.mem_map.mp (sent.mem later)
        cases same
        refine ⟨s.nextGeneration, rfl, ?_⟩
        rcases List.mem_append.mp inside with ack | value
        · split at ack
          · rw [List.mem_singleton.mp ack] at numbered
            exact absurd rfl numbered
          · cases ack
        · obtain ⟨number, last, topic, ts, data, rfl, above, within⟩ := frames _ value
          exact .snapshot accepted above within
  · intro isOpenAfter generation above
    rw [later isOpenAfter] at above
    rw [counted_append, adds, counts.fresh isOpen generation (by omega), if_neg (by omega)]

theorem mem_set_cases (table : Table config s) {index : ℕ} {pump next other : Pump}
    (found : s.subs[index]? = some pump) (mem : other ∈ s.subs.set index next) :
    other = next ∨ other ∈ s.subs ∧ pump.generation ≠ other.generation := by
  obtain ⟨place, holds⟩ := List.mem_iff_getElem?.mp mem
  obtain ⟨inRange, -⟩ := List.getElem?_eq_some_iff.mp found
  by_cases here : index = place
  · rw [← here, List.getElem?_set_self inRange, Option.some.injEq] at holds
    exact .inl holds.symm
  · rw [List.getElem?_set_ne here] at holds
    refine .inr ⟨List.mem_of_getElem? holds, fun same => here ?_⟩
    have inMap : index < (s.subs.map Pump.generation).length := by simpa using inRange
    refine (List.getElem?_inj inMap table.pump_generations).mp ?_
    rw [List.getElem?_map, List.getElem?_map, found, holds]
    exact congrArg some same

theorem Counts.pull (counts : Counts s log) (table : Table config s) {index : ℕ} {pump : Pump}
    {update : SubUpdate} (found : s.subs[index]? = some pump)
    (inRange : pump.seq.toNat + (update.skipped.toNat + 1) < 2 ^ 64) :
    let next := { pump with seq := pump.seq + (update.skipped + 1) }
    let pulled := log ++ [.pulled pump.generation update]
    Counts { s with subs := s.subs.set index next } pulled ∧
      Genuine pulled pump.generation (pump.numbered update).frame ∧
      (pump.numbered update).seq.toNat = counted pump.generation pulled ∧
      counted pump.generation log < counted pump.generation pulled := by
  intro next pulled
  obtain ⟨count, snapshots, accepted⟩ := counts.pumps pump (List.mem_of_getElem? found)
  have seq : next.seq.toNat = pump.seq.toNat + (update.skipped.toNat + 1) := numbered_toNat inRange
  have adds (generation : ℕ) : counted generation pulled = counted generation log +
      if pump.generation = generation then update.skipped.toNat + 1 else 0 := by
    simp [pulled, counted, Record.adds]
  have own : counted pump.generation pulled =
      counted pump.generation log + (update.skipped.toNat + 1) := by
    rw [adds, if_pos rfl]
  refine ⟨?_, ?_, ?_, by omega⟩
  · constructor
    · intro generation
      rw [adds]
      have same : numbers generation pulled = numbers generation log := by
        simp [pulled, numbers, Record.number]
      rw [same]
      exact (counts.rising generation).raise (Nat.le_add_right _ _)
    · intro other mem
      rcases mem_set_cases table found mem with rfl | ⟨old, elsewhere⟩
      · exact ⟨by rw [seq, count]; exact own.symm, snapshots, List.mem_append_left _ accepted⟩
      · obtain ⟨countOther, number, was⟩ := counts.pumps other old
        rw [adds, if_neg elsewhere, Nat.add_zero]
        exact ⟨countOther, number, List.mem_append_left _ was⟩
    · exact fun queued mem => (counts.queued queued mem).append _
    · intro origin frame mem numbered
      rcases List.mem_append.mp mem with old | new
      · obtain ⟨generation, same, genuine⟩ := counts.sent origin frame old numbered
        exact ⟨generation, same, genuine.append _⟩
      · cases List.mem_singleton.mp new
    · intro isOpen generation above
      have older := table.generation_lt pump.ticket (Table.ticket_mem (List.mem_of_getElem? found))
      change pump.generation < s.nextGeneration at older
      change s.nextGeneration ≤ generation at above
      rw [adds, counts.fresh isOpen generation above, if_neg (by omega)]
  · refine @Genuine.event _ _ log [] pump.subId snapshots update _
      (List.mem_append_left _ accepted) rfl ?_
    rw [← count]
    exact seq
  · rw [own, ← count]
    exact seq

theorem Counts.queue (counts : Counts s log) (table : Table config s) {index : ℕ} {pump : Pump}
    {update : SubUpdate} (found : s.subs[index]? = some pump)
    (inRange : pump.seq.toNat + (update.skipped.toNat + 1) < 2 ^ 64) :
    Counts { s with
        subs := s.subs.set index { pump with seq := pump.seq + (update.skipped + 1) }
        funnel := s.funnel ++ [⟨pump.generation, pump.numbered update⟩] }
      (log ++ [.pulled pump.generation update]) := by
  obtain ⟨pulled, genuine, number, above⟩ := counts.pull table found inRange
  refine { pulled with rising := fun generation => ?_, queued := fun queued mem => ?_ }
  · have same : numbers generation (log ++ [.pulled pump.generation update]) =
        numbers generation log := by simp [numbers, Record.number]
    rw [same, State.waiting, List.filter_append, List.map_append, ← List.append_assoc]
    by_cases own : pump.generation = generation
    · subst own
      have pushed := (counts.rising pump.generation).push above
      rw [← number] at pushed ⊢
      simpa [State.waiting] using pushed
    · have raised := pulled.rising generation
      rw [same] at raised
      simpa [own, State.waiting] using raised
  · rcases List.mem_append.mp mem with old | new
    · exact pulled.queued queued old
    · rw [List.mem_singleton.mp new]
      exact genuine

theorem Sent.uncounted {frames : List (Option ℕ × Outbound)} {alive : Bool}
    {records : List Record}
    (sent : Sent codec frames alive records)
    (unnumbered : ∀ frame ∈ frames, frame.2.numbered = none) :
    ∀ record ∈ records, record.Uncounted := by
  intro record mem
  rcases sent.record record mem with ⟨origin, frame, rfl⟩ | ⟨frame, rfl⟩
  · exact unnumbered _ (sent.mem mem)
  · trivial

theorem Counts.reap (counts : Counts s log) (index : ℕ) (pump : Pump) (exhausted : Bool)
    (isOpen : s.closed = false) :
    Counts { s with subs := s.subs.eraseIdx index, cancels := s.cancels.erase pump.subId }
      (log ++ [.drained pump.subId pump.generation exhausted, .ended pump.subId pump.generation]) :=
  counts.uncounted (by simp [Record.Uncounted]) (List.Sublist.refl _)
    (fun pump mem => ⟨pump, List.mem_of_mem_eraseIdx mem, rfl, rfl, rfl⟩) (fun _ => isOpen) rfl

/-- No counter runs past the end of a `u64`. -/
def InRange (s : State) : Input → Prop
  | .frame _ answer _ => answer.snapshots.length < 2 ^ 64
  | .update index update => ∀ pump, s.subs[index]? = some pump →
      pump.seq.toNat + (update.skipped.toNat + 1) < 2 ^ 64
  | _ => True

theorem Counts.took (counts : Counts s log) (table : Table config s) (isOpen : s.closed = false)
    {input : Input} {emitted : List Record} (inRange : InRange s input)
    (took : Took codec config s input after emitted) : Counts after (log ++ emitted) := by
  have kept (pump : Pump) (mem : pump ∈ s.subs) : ∃ same ∈ s.subs, pump.seq = same.seq ∧
      pump.generation = same.generation ∧
      pump.subId = same.subId := ⟨pump, mem, rfl, rfl, rfl⟩
  cases took with
  | plain plain =>
      exact counts.uncounted (fun record mem => (plain record mem).uncounted) (List.Sublist.refl _)
        kept (fun _ => isOpen) rfl
  | reset plain =>
      refine counts.uncounted ?_ (List.nil_sublist _) (by simp) (fun _ => isOpen) rfl
      rw [List.forall_mem_cons]
      exact ⟨trivial, fun record mem => (plain record mem).uncounted⟩
  | accepted _ _ _ sent =>
      refine counts.opening codec config table isOpen inRange sent rfl ?_ fun _ => rfl
      intro pump mem
      rcases List.mem_append.mp mem with old | new
      · exact .inl old
      · rw [List.mem_singleton.mp new]
        exact .inr ⟨burstEnd_toNat inRange, rfl, rfl⟩
  | interrupted _ _ _ sent =>
      exact counts.opening codec config table isOpen inRange sent rfl (fun _ mem => .inl mem) nofun
  | unsubscribed =>
      exact counts.uncounted (by simp [Record.Uncounted]) (List.Sublist.refl _) kept
        (fun _ => isOpen) rfl
  | @event _ queued rest alive _ funnel sent =>
      exact counts.flush [queued] rest funnel sent _ _ (fun _ mem => mem) _ fun _ => isOpen
  | foreign =>
      exact counts.uncounted (by simp [Record.Uncounted]) (List.Sublist.refl _)
        (fun pump mem => kept pump (List.mem_of_mem_eraseIdx mem)) (fun _ => isOpen) rfl
  | pruned => exact counts.reap _ _ false isOpen
  | @lastWord index _ pump flush reply _ _ _ flushes replies =>
      have reaped := counts.reap index pump true isOpen
      have flushed := reaped.flush s.funnel [] (List.append_nil _).symm flushes false _
        (fun _ mem => mem) (s.cancels.erase pump.subId) fun _ => isOpen
      have said : ∀ record ∈ reply, record.Uncounted := by
        rcases replies with ⟨rfl, -⟩ | ⟨id, alive, -, sent⟩
        · simp
        · exact sent.uncounted (by simp [Outbound.numbered])
      have replied := flushed.uncounted said (List.Sublist.refl _)
        (fun pump mem => ⟨pump, mem, rfl, rfl, rfl⟩) (fun _ => rfl) rfl
      rw [List.append_assoc, List.append_assoc] at replied
      exact replied
  | @silenced index _ pump flush _ _ _ flushes =>
      have reaped := counts.reap index pump true isOpen
      have flushed := reaped.flush s.funnel [] (List.append_nil _).symm flushes true _
        (fun _ mem => mem) (s.cancels.erase pump.subId) fun _ => isOpen
      rw [List.append_assoc] at flushed
      exact flushed
  | @queued index pump update found _ _ _ =>
      have queued := counts.queue table found (inRange _ found)
      have said : ∀ record ∈ [Record.queued pump.generation (pump.numbered update)],
          record.Uncounted := by simp [Record.Uncounted]
      have told := queued.uncounted said (List.Sublist.refl _)
        (fun pump mem => ⟨pump, mem, rfl, rfl, rfl⟩) (fun _ => isOpen) rfl
      rw [List.append_assoc] at told
      exact told
  | overflowed found _ _ _ => exact (counts.pull table found (inRange _ found)).1
  | @finished index pump found _ =>
      refine counts.uncounted (by simp) (List.Sublist.refl _) ?_ (fun _ => isOpen) rfl
      intro other mem
      rcases mem_set_cases table found mem with rfl | ⟨old, -⟩
      · exact ⟨pump, List.mem_of_getElem? found, rfl, rfl, rfl⟩
      · exact kept other old

theorem counts_of_runs (reached : Runs codec config InRange s log) : Counts s log := by
  refine reached.invariant Counts ?_ ?_
  · constructor
    · exact fun _ => .nil (Nat.le_refl _)
    · simp
    · simp
    · simp
    · exact fun _ _ _ => rfl
  · intro state log input after emitted reached inRange stepped counts
    obtain ⟨isOpen, took⟩ := took_of_step stepped
    exact counts.took (table_of_runs reached) isOpen inRange took

end AimDb.Session.Server
