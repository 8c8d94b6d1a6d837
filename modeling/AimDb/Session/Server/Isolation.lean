import AimDb.Numbering.Rising
import AimDb.Session.Server.Table

/-!
# Isolation of subscriptions that share an id

A queued event outlives its pump, and the funnel knows it by its sub id alone.
While no Subscribe is accepted for an id that still has events queued, every
event sent for a live subscription is its own, numbered past the one before.
-/

namespace AimDb.Session.Server

open AimDb.Json AimDb.Numbering AimDb.Transition

variable {codec : EnvelopeCodec} {config : SessionConfig} {s : State}

/-- The subscription under `sub` ends, by itself or with the whole session. -/
def Record.Ends (sub : String) : Record → Prop
  | .ended other _ => other = sub
  | .reset => True
  | _ => False

/-- The number of a value frame sent for `sub`. -/
def Record.wireSeq (sub : String) : Record → Option UInt64
  | .sent _ frame => frame.numbered.bind fun tag => if tag.1 = sub then some tag.2 else none
  | _ => none

/-- Between accepting a subscription and its end, the value frames sent under its
id are its own and their numbers rise. -/
structure Isolated (log : List Record) : Prop where
  own : ∀ {before sub generation snapshots during after},
    log = before ++ .accepted sub generation snapshots :: (during ++ after) →
    (∀ record ∈ during, ¬ record.Ends sub) →
    ∀ {origin frame seq}, .sent origin frame ∈ during → frame.numbered = some (sub, seq) →
      origin = some generation
  rising : ∀ {before sub generation snapshots during after},
    log = before ++ .accepted sub generation snapshots :: (during ++ after) →
    (∀ record ∈ during, ¬ record.Ends sub) →
    (during.filterMap (Record.wireSeq sub)).Pairwise (· < ·)

/-- A live subscription as the log shows it. -/
structure Live where
  generation : ℕ
  lastSeq : ℕ

/-- Reads the live subscriptions off the log. -/
def isolation : Monitor (String → Option Live) Record where
  track memory
    | .accepted sub generation _ => Function.update memory sub (some ⟨generation, 0⟩)
    | .ended sub _ => Function.update memory sub none
    | .reset => fun _ => none
    | .sent _ frame =>
        match frame.numbered with
        | some (sub, seq) =>
            Function.update memory sub
              ((memory sub).map fun live => ⟨live.generation, seq.toNat⟩)
        | none => memory
    | _ => memory
  permits memory
    | .accepted sub _ _ => memory sub = none
    | .sent origin frame =>
        ∀ sub seq live, frame.numbered = some (sub, seq) → memory sub = some live →
          origin = some live.generation ∧ live.lastSeq < seq.toNat
    | _ => True

theorem isolated_during {memory : String → Option Live} {sub : String} {live : Live}
    {during : List Record} (opened : memory sub = some live)
    (accepts : isolation.Accepts memory during)
    (lasts : ∀ record ∈ during, ¬ record.Ends sub) :
    (∀ {origin frame seq}, .sent origin frame ∈ during → frame.numbered = some (sub, seq) →
      origin = some live.generation) ∧
    (live.lastSeq :: (during.filterMap (Record.wireSeq sub)).map UInt64.toNat).Pairwise
      (· < ·) := by
  induction during generalizing memory live with
  | nil => simp
  | cons record during inductionHypothesis =>
      obtain ⟨permitted, accepts⟩ := Monitor.accepts_cons.mp accepts
      rw [List.forall_mem_cons] at lasts
      obtain ⟨lasting, lasts⟩ := lasts
      -- every record but a value frame of `sub` leaves its entry alone
      have unchanged : isolation.track memory record sub = some live →
          record.wireSeq sub = none →
          (∀ {origin frame seq}, .sent origin frame ∈ record :: during →
            frame.numbered = some (sub, seq) → origin = some live.generation) ∧
          (live.lastSeq :: ((record :: during).filterMap (Record.wireSeq sub)).map
            UInt64.toNat).Pairwise (· < ·) := by
        intro same silent
        obtain ⟨own, rising⟩ := inductionHypothesis same accepts lasts
        refine ⟨?_, by rwa [List.filterMap_cons_none silent]⟩
        intro origin frame seq mem tag
        rcases List.mem_cons.mp mem with rfl | later
        · simp [Record.wireSeq, tag] at silent
        · exact own later tag
      cases record with
      | accepted other _ _ =>
          have distinct : sub ≠ other := by
            rintro rfl
            exact absurd (opened.symm.trans permitted) (by simp)
          exact unchanged (by simp [isolation, Function.update_of_ne distinct, opened]) rfl
      | ended other _ =>
          have distinct : sub ≠ other := fun same => lasting same.symm
          exact unchanged (by simp [isolation, Function.update_of_ne distinct, opened]) rfl
      | reset => exact absurd trivial lasting
      | pulled | queued | failed | drained => exact unchanged opened rfl
      | sent origin frame =>
          cases tag : frame.numbered with
          | none =>
              exact unchanged (by simp [isolation, tag, opened]) (by simp [Record.wireSeq, tag])
          | some numbered =>
              obtain ⟨other, seq⟩ := numbered
              rcases eq_or_ne sub other with rfl | distinct
              · obtain ⟨own, above⟩ := permitted sub seq live tag opened
                have now : isolation.track memory (.sent origin frame) sub =
                    some ⟨live.generation, seq.toNat⟩ := by
                  simp [isolation, tag, opened]
                obtain ⟨owns, rising⟩ := inductionHypothesis now accepts lasts
                constructor
                · intro origin' frame' seq' mem tag'
                  rcases List.mem_cons.mp mem with same | later
                  · rw [Record.sent.injEq] at same
                    rw [same.1, own]
                  · exact owns later tag'
                · have said : Record.wireSeq sub (.sent origin frame) = some seq := by
                    simp [Record.wireSeq, tag]
                  rw [List.filterMap_cons_some said, List.map_cons, List.pairwise_cons]
                  refine ⟨?_, rising⟩
                  intro number mem
                  rcases List.mem_cons.mp mem with rfl | later
                  · exact above
                  · exact above.trans ((List.pairwise_cons.mp rising).1 number later)
              · apply unchanged
                · simp [isolation, tag, Function.update_of_ne distinct, opened]
                · simp [Record.wireSeq, tag, distinct.symm]

theorem isolated_of_accepts {log : List Record}
    (accepts : isolation.Accepts (fun _ => none) log) : Isolated log := by
  have opened : ∀ {before sub generation snapshots during after},
      log = before ++ .accepted sub generation snapshots :: (during ++ after) →
      ∃ memory, memory sub = some ⟨generation, 0⟩ ∧ isolation.Accepts memory during := by
    intro before sub generation snapshots during after split
    rw [split, Monitor.accepts_append, Monitor.accepts_cons, Monitor.accepts_append] at accepts
    exact ⟨_, by simp [isolation], accepts.2.2.1⟩
  constructor
  · intro before sub generation snapshots during after split lasts origin frame seq mem tag
    obtain ⟨memory, opens, accepted⟩ := opened split
    exact (isolated_during opens accepted lasts).1 mem tag
  · intro before sub generation snapshots during after split lasts
    obtain ⟨memory, opens, accepted⟩ := opened split
    have rising := (List.pairwise_cons.mp (isolated_during opens accepted lasts).2).2
    rw [List.pairwise_map] at rising
    exact rising.imp UInt64.lt_iff_toNat_lt.mpr

/-- The events queued for `sub` belong to its live subscription and rise from the
last number sent up to the pump's counter. -/
structure Lined (live : Live) (funnel : List Queued) (sub : String) (counter : ℕ) : Prop where
  own : ∀ queued ∈ funnel, queued.event.sub = sub → queued.origin = live.generation
  rising : Rising live.lastSeq
    ((funnel.filter fun queued => queued.event.sub = sub).map fun queued => queued.event.seq.toNat)
    counter

def Ready (memory : String → Option Live) (funnel : List Queued)
    (counter : String → ℕ) : Prop :=
  ∀ sub live, memory sub = some live → Lined live funnel sub (counter sub)

structure Agrees (s : State) (memory : String → Option Live) (counter : String → ℕ) :
    Prop where
  vacant : ∀ {sub}, memory sub = none → s.cancels.lookup sub = none
  running : ∀ {sub live}, memory sub = some live →
    ∃ pump ∈ s.subs, pump.subId = sub ∧ pump.generation = live.generation ∧
      pump.seq.toNat = counter sub ∧ s.cancels.lookup sub = some pump.ticket.2
  ready : Ready memory s.funnel counter

theorem Lined.skip {live : Live} {queued : Queued} {rest : List Queued} {sub : String}
    {counter : ℕ} (lined : Lined live (queued :: rest) sub counter) :
    Lined live rest sub counter := by
  refine ⟨fun other mem => lined.own other (List.mem_cons_of_mem _ mem), ?_⟩
  have rising := lined.rising
  rw [List.filter_cons] at rising
  split at rising
  · exact rising.skip
  · exact rising

theorem Lined.other {live : Live} {queued : Queued} {funnel : List Queued} {sub : String}
    {counter : ℕ} (lined : Lined live funnel sub counter) (distinct : queued.event.sub ≠ sub) :
    Lined live (funnel ++ [queued]) sub counter := by
  constructor
  · intro other mem tag
    rcases List.mem_append.mp mem with old | new
    · exact lined.own other old tag
    · obtain rfl := List.mem_singleton.mp new
      exact absurd tag distinct
  · simpa [List.filter_append, distinct] using lined.rising

theorem Lined.push {live : Live} {queued : Queued} {funnel : List Queued} {counter : ℕ}
    (lined : Lined live funnel queued.event.sub counter) (own : queued.origin = live.generation)
    (above : counter < queued.event.seq.toNat) :
    Lined live (funnel ++ [queued]) queued.event.sub queued.event.seq.toNat := by
  constructor
  · intro other mem tag
    rcases List.mem_append.mp mem with old | new
    · exact lined.own other old tag
    · obtain rfl := List.mem_singleton.mp new
      exact own
  · simpa [List.filter_append] using lined.rising.push above

theorem Lined.raise {live : Live} {funnel : List Queued} {sub : String} {counter next : ℕ}
    (lined : Lined live funnel sub counter) (bound : counter ≤ next) :
    Lined live funnel sub next :=
  ⟨lined.own, lined.rising.raise bound⟩

namespace Ready

variable {memory : String → Option Live} {counter : String → ℕ} {queued : Queued}
  {rest funnel : List Queued}

theorem skip (ready : Ready memory (queued :: rest) counter) : Ready memory rest counter :=
  fun sub live opened => (ready sub live opened).skip

theorem sent (ready : Ready memory (queued :: rest) counter) :
    isolation.permits memory (.sent (some queued.origin) queued.event.frame) ∧
      Ready (isolation.track memory (.sent (some queued.origin) queued.event.frame)) rest
        counter := by
  have head : ∀ {live}, memory queued.event.sub = some live →
      Rising live.lastSeq (queued.event.seq.toNat :: ((rest.filter fun other =>
        other.event.sub = queued.event.sub).map fun other => other.event.seq.toNat))
        (counter queued.event.sub) := by
    intro live opened
    have rising := (ready _ _ opened).rising
    rwa [List.filter_cons_of_pos (by simp)] at rising
  constructor
  · intro sub seq live tag opened
    obtain ⟨rfl, rfl⟩ : queued.event.sub = sub ∧ queued.event.seq = seq := by
      simpa [SubEvent.frame, Outbound.numbered] using tag
    have own := (ready _ _ opened).own queued List.mem_cons_self rfl
    exact ⟨congrArg some own, (head opened).lt_head⟩
  · intro sub live opened
    simp only [isolation, SubEvent.frame, Outbound.numbered] at opened
    rcases eq_or_ne sub queued.event.sub with rfl | distinct
    · simp only [Function.update_self, Option.map_eq_some_iff] at opened
      obtain ⟨former, was, rfl⟩ := opened
      exact ⟨(ready _ _ was).skip.own, (head was).pop⟩
    · rw [Function.update_of_ne distinct] at opened
      exact (ready _ _ opened).skip

theorem flushed (codec : EnvelopeCodec) {front : List Queued}
    (ready : Ready memory (front ++ rest) counter) :
    isolation.Accepts memory (said codec (flushed front)) ∧
      Ready (isolation.remember memory (said codec (flushed front))) rest counter := by
  induction front generalizing memory with
  | nil => exact ⟨trivial, ready⟩
  | cons queued front inductionHypothesis =>
      rw [Server.flushed, List.map_cons]
      by_cases encoded : encodes codec queued.event.frame = true
      · obtain ⟨permitted, readied⟩ := ready.sent
        obtain ⟨accepts, after⟩ := inductionHypothesis readied
        rw [said_encoded encoded]
        exact ⟨⟨permitted, accepts⟩, after⟩
      · rw [said_skipped encoded]
        exact inductionHypothesis ready.skip

end Ready

/-- Sending changes the last number of a live subscription, never whose it is. -/
theorem remember_said (codec : EnvelopeCodec) (memory : String → Option Live)
    (frames : List (Option ℕ × Outbound)) (sub : String) :
    (isolation.remember memory (said codec frames) sub).map Live.generation =
      (memory sub).map Live.generation := by
  have tracked : ∀ (memory : String → Option Live) origin frame,
      (isolation.track memory (.sent origin frame) sub).map Live.generation =
        (memory sub).map Live.generation := by
    intro memory origin frame
    cases tag : frame.numbered with
    | none => simp [isolation, tag]
    | some numbered =>
        rcases eq_or_ne sub numbered.1 with rfl | distinct
        · simp [isolation, tag, Option.map_map, Function.comp_def]
        · simp [isolation, tag, Function.update_of_ne distinct]
  simp only [said]
  generalize frames.filter (fun frame => encodes codec frame.2) = sent
  induction sent generalizing memory with
  | nil => rfl
  | cons frame sent inductionHypothesis =>
      rw [List.map_cons, Monitor.remember_cons, inductionHypothesis, tracked]

/-- A record that neither opens nor ends a subscription nor carries a value to it. -/
def Record.Quiet : Record → Prop
  | .sent _ frame => frame.numbered = none
  | .pulled _ _ | .queued _ _ | .failed _ | .drained _ _ _ => True
  | .accepted _ _ _ | .ended _ _ | .reset => False

theorem Record.Plain.quiet {record : Record} (plain : record.Plain) : record.Quiet := by
  unfold Record.Plain at plain
  split at plain
  · rfl
  · rfl
  · trivial
  · exact absurd plain id

theorem isolation_quiet (memory : String → Option Live) {records : List Record}
    (quiet : ∀ record ∈ records, record.Quiet) :
    isolation.Accepts memory records ∧ isolation.remember memory records = memory := by
  have each : ∀ record ∈ records,
      isolation.track memory record = memory ∧ isolation.permits memory record := by
    intro record mem
    have quiet := quiet record mem
    cases record with
    | sent origin frame =>
        have untagged : frame.numbered = none := quiet
        simp [isolation, untagged]
    | pulled | queued | failed | drained => exact ⟨rfl, trivial⟩
    | accepted | ended | reset => exact absurd quiet id
  exact ⟨Monitor.accepts_of_quiet (fun record mem => (each record mem).1)
    (fun record mem => (each record mem).2),
    Monitor.remember_of_quiet fun record mem => (each record mem).1⟩

theorem quiet_of_sent {frames : List (Option ℕ × Outbound)} {alive : Bool}
    {records : List Record} (sent : Sent codec frames alive records)
    (valueless : ∀ frame ∈ frames, frame.2.numbered = none) :
    ∀ record ∈ records, record.Quiet := by
  obtain ⟨front, rest, failed, rfl, rfl, fails⟩ := sent.front
  intro record mem
  rcases List.mem_append.mp mem with said | failing
  · obtain ⟨frame, sent, rfl⟩ := List.mem_map.mp said
    exact valueless frame (List.mem_append_left _ (List.mem_of_mem_filter sent))
  · obtain ⟨frame, rfl⟩ := fails record failing
    trivial

theorem isolation_ignores (memory : String → Option Live) (frame : Outbound) :
    isolation.permits memory (.failed frame) ∧ isolation.track memory (.failed frame) = memory :=
  ⟨trivial, rfl⟩

theorem succ_toNat {seq : UInt64} (inRange : seq.toNat + 1 < 2 ^ 64) :
    (seq + 1).toNat = seq.toNat + 1 := by
  rw [UInt64.toNat_add]
  exact Nat.mod_eq_of_lt inRange

theorem accepts_burst (codec : EnvelopeCodec) {memory : String → Option Live} {sub : String}
    {generation low : ℕ} (seq : UInt64) (snapshots : List Snapshot)
    (opened : memory sub = some ⟨generation, low⟩) (below : low ≤ seq.toNat)
    (inRange : seq.toNat + snapshots.length < 2 ^ 64) :
    isolation.Accepts memory
        (said codec ((burst sub seq snapshots).map fun frame => (some generation, frame))) ∧
      ∃ last ≤ seq.toNat + snapshots.length,
        isolation.remember memory
            (said codec ((burst sub seq snapshots).map fun frame => (some generation, frame))) =
          Function.update memory sub (some ⟨generation, last⟩) := by
  induction snapshots generalizing memory low seq with
  | nil =>
      exact ⟨trivial, low, below, by rw [← opened]; exact (Function.update_eq_self _ _).symm⟩
  | cons snapshot snapshots inductionHypothesis =>
      obtain ⟨topic, data, ts⟩ := snapshot
      rw [List.length_cons] at inRange
      have next : (seq + 1).toNat = seq.toNat + 1 := succ_toNat (by omega)
      rw [burst, List.map_cons, List.length_cons]
      generalize isEnd : snapshots.isEmpty = last
      by_cases encoded :
          encodes codec (.snapshot sub (seq + 1) last topic ts data) = true
      · have tracked : isolation.track memory
            (.sent (some generation) (.snapshot sub (seq + 1) last topic ts data)) =
            Function.update memory sub (some ⟨generation, seq.toNat + 1⟩) := by
          simp [isolation, Outbound.numbered, opened, next]
        obtain ⟨accepts, final, bound, remembered⟩ :=
          inductionHypothesis (seq + 1)
            (Function.update_self sub (some ⟨generation, seq.toNat + 1⟩) memory)
            (by omega) (by omega)
        rw [said_encoded encoded, Monitor.accepts_cons, Monitor.remember_cons, tracked]
        refine ⟨⟨?_, accepts⟩, final, by omega, ?_⟩
        · intro other number live tag was
          obtain ⟨rfl, rfl⟩ : sub = other ∧ seq + 1 = number := by
            simpa [Outbound.numbered] using tag
          obtain rfl := Option.some.inj (opened.symm.trans was)
          exact ⟨rfl, by simp only [next]; omega⟩
        · exact remembered.trans (Function.update_idem _ _ _)
      · obtain ⟨accepts, final, bound, remembered⟩ :=
          inductionHypothesis (seq + 1) opened (by omega) (by omega)
        rw [said_skipped encoded]
        exact ⟨accepts, final, by omega, remembered⟩

theorem burstEnd_toNat {snapshots : List Snapshot} (inRange : snapshots.length < 2 ^ 64) :
    (burstEnd snapshots).toNat = snapshots.length := by
  have counted : ∀ (snapshots : List Snapshot) (seq : UInt64),
      seq.toNat + snapshots.length < 2 ^ 64 →
      (snapshots.foldl (fun seq _ => seq + 1) seq).toNat = seq.toNat + snapshots.length := by
    intro snapshots
    induction snapshots with
    | nil => exact fun _ _ => rfl
    | cons snapshot snapshots inductionHypothesis =>
        intro seq inRange
        rw [List.length_cons] at inRange
        have next : (seq + 1).toNat = seq.toNat + 1 := succ_toNat (by omega)
        rw [List.foldl_cons, inductionHypothesis _ (by omega), List.length_cons]
        omega
  rw [burstEnd, counted snapshots 0 (by simpa using inRange)]
  simp

/-- What a new subscription starts with: its own frames, numbered up to the burst's end. -/
theorem accepts_opening (codec : EnvelopeCodec) (config : SessionConfig)
    {memory : String → Option Live} {sub : String} {snapshots : List Snapshot}
    (opened : memory sub = some ⟨s.nextGeneration, 0⟩)
    (inRange : snapshots.length < 2 ^ 64) :
    isolation.Accepts memory (said codec (s.opening config sub snapshots)) ∧
      ∃ last ≤ snapshots.length,
        isolation.remember memory (said codec (s.opening config sub snapshots)) =
          Function.update memory sub (some ⟨s.nextGeneration, last⟩) := by
  have numbered := accepts_burst codec 0 snapshots opened
    (Nat.zero_le _) (by simpa using inRange)
  simp only [UInt64.toNat_zero, Nat.zero_add] at numbered
  unfold State.opening
  cases config.acksSubscribe with
  | false => simpa using numbered
  | true =>
      simp only [if_true, List.cons_append, List.nil_append, List.map_cons]
      by_cases encoded : encodes codec (.subscribed sub) = true
      · rw [said_encoded encoded, Monitor.accepts_cons, Monitor.remember_cons]
        exact ⟨⟨by simp [isolation, Outbound.numbered], numbered.1⟩, numbered.2⟩
      · rwa [said_skipped encoded]

/-- A Subscribe is accepted only while nothing is queued under its id, and no
sequence number runs past the end of a `u64`. -/
def Settled (codec : EnvelopeCodec) (config : SessionConfig) (s : State) : Input → Prop
  | .frame bytes answer _ =>
      ∀ id topic, codec.decode bytes = .ok (.subscribe id topic) →
        s.admits config (subKey id) = true → answer.subscribe = .ok () →
        (∀ queued ∈ s.funnel, queued.event.sub ≠ subKey id) ∧
        answer.snapshots.length < 2 ^ 64
  | .update index update =>
      ∀ pump, s.subs[index]? = some pump →
        pump.seq.toNat + (update.skipped.toNat + 1) < 2 ^ 64
  | _ => True

theorem numbered_toNat {pump : Pump} {update : SubUpdate}
    (inRange : pump.seq.toNat + (update.skipped.toNat + 1) < 2 ^ 64) :
    (pump.seq + (update.skipped + 1)).toNat = pump.seq.toNat + (update.skipped.toNat + 1) := by
  have next : (update.skipped + 1).toNat = update.skipped.toNat + 1 := succ_toNat (by omega)
  rw [UInt64.toNat_add, next]
  exact Nat.mod_eq_of_lt inRange

namespace Agrees

variable {memory : String → Option Live} {counter : String → ℕ}

theorem held (agrees : Agrees s memory counter) {sub : String} {live : Live}
    (opened : memory sub = some live) :
    ∃ handle, s.cancels.lookup sub = some handle ∧ handle.generation = live.generation := by
  obtain ⟨pump, -, -, own, -, entry⟩ := agrees.running opened
  exact ⟨_, entry, own⟩

theorem vacant_of_lookup (agrees : Agrees s memory counter) {sub : String}
    (absent : s.cancels.lookup sub = none) : memory sub = none := by
  cases opened : memory sub with
  | none => rfl
  | some live =>
      obtain ⟨handle, entry, -⟩ := agrees.held opened
      exact absurd (absent.symm.trans entry) (by simp)

theorem close (agrees : Agrees s memory counter) (sub : String) {subs : List Pump}
    (kept : ∀ pump ∈ s.subs, pump.subId ≠ sub → pump ∈ subs) :
    Agrees { s with subs, cancels := s.cancels.erase sub } (Function.update memory sub none)
      counter where
  vacant {other} gone := by
    rcases eq_or_ne other sub with rfl | distinct
    · simp
    · rw [Function.update_of_ne distinct] at gone
      rw [AList.lookup_erase_ne distinct]
      exact agrees.vacant gone
  running {other live} opened := by
    rcases eq_or_ne other sub with rfl | distinct
    · simp at opened
    · rw [Function.update_of_ne distinct] at opened
      obtain ⟨pump, mem, rfl, own, count, entry⟩ := agrees.running opened
      exact ⟨pump, kept pump mem distinct, rfl, own, count, by
        rw [AList.lookup_erase_ne distinct]; exact entry⟩
  ready := by
    intro other live opened
    rcases eq_or_ne other sub with rfl | distinct
    · simp at opened
    · rw [Function.update_of_ne distinct] at opened
      exact agrees.ready _ _ opened

theorem reap (agrees : Agrees s memory counter) {subs : List Pump}
    (kept : ∀ pump ∈ s.subs, s.cancels.lookup pump.subId = some pump.ticket.2 →
      pump ∈ subs) :
    Agrees { s with subs } memory counter where
  vacant gone := agrees.vacant gone
  running opened := by
    obtain ⟨pump, mem, rfl, own, count, entry⟩ := agrees.running opened
    exact ⟨pump, kept pump mem entry, rfl, own, count, entry⟩
  ready := agrees.ready

theorem flush (codec : EnvelopeCodec) (agrees : Agrees s memory counter) {front rest : List Queued}
    (split : s.funnel = front ++ rest) :
    isolation.Accepts memory (said codec (flushed front)) ∧
      Agrees { s with funnel := rest } (isolation.remember memory (said codec (flushed front)))
        counter := by
  obtain ⟨accepts, ready⟩ := Ready.flushed codec (split ▸ agrees.ready)
  refine ⟨accepts, ?_, ?_, ready⟩
  · intro sub gone
    have same := remember_said codec memory (flushed front) sub
    rw [gone, Option.map_none, eq_comm, Option.map_eq_none_iff] at same
    exact agrees.vacant same
  · intro sub live opened
    have same := remember_said codec memory (flushed front) sub
    rw [opened, Option.map_some, eq_comm, Option.map_eq_some_iff] at same
    obtain ⟨former, was, own⟩ := same
    rw [← own]
    exact agrees.running was

/-- A new subscription with nothing queued under its id. -/
theorem register (agrees : Agrees s memory counter) {sub : String} {snapshots : List Snapshot}
    {last : ℕ} (bound : last ≤ (burstEnd snapshots).toNat)
    (unqueued : ∀ queued ∈ s.funnel, queued.event.sub ≠ sub) :
    Agrees (s.register sub snapshots)
      (Function.update memory sub (some ⟨s.nextGeneration, last⟩))
      (Function.update counter sub (burstEnd snapshots).toNat) where
  vacant {other} gone := by
    rcases eq_or_ne other sub with rfl | distinct
    · simp at gone
    · rw [Function.update_of_ne distinct] at gone
      rw [State.register, AList.lookup_insert_ne distinct]
      exact agrees.vacant gone
  running {other live} opened := by
    rcases eq_or_ne other sub with rfl | distinct
    · rw [Function.update_self, Option.some.injEq] at opened
      refine ⟨⟨other, s.nextGeneration, s.channels, burstEnd snapshots, none⟩, ?_, rfl,
        ?_, ?_, ?_⟩
      · exact List.mem_append_right _ List.mem_cons_self
      · rw [← opened]
      · rw [Function.update_self]
      · rw [State.register, AList.lookup_insert, Pump.ticket]
    · rw [Function.update_of_ne distinct] at opened
      obtain ⟨pump, mem, rfl, own, count, entry⟩ := agrees.running opened
      refine ⟨pump, List.mem_append_left _ mem, rfl, own, ?_, ?_⟩
      · rw [Function.update_of_ne distinct, count]
      · rw [State.register, AList.lookup_insert_ne distinct]
        exact entry
  ready := by
    intro other live opened
    rcases eq_or_ne other sub with rfl | distinct
    · rw [Function.update_self, Option.some.injEq] at opened
      rw [Function.update_self, ← opened]
      refine ⟨fun queued mem tag => absurd tag (unqueued queued mem), ?_⟩
      have empty : s.funnel.filter (fun queued => queued.event.sub = other) = [] := by
        rw [List.filter_eq_nil_iff]
        simpa using unqueued
      simp only [State.register, empty, List.map_nil]
      exact .nil bound
    · rw [Function.update_of_ne distinct] at opened ⊢
      exact agrees.ready _ _ opened

theorem advance (agrees : Agrees s memory counter) {index : ℕ} {pump next : Pump}
    {funnel : List Queued} {moved : String → ℕ}
    (found : s.subs[index]? = some pump) (same : next.ticket = pump.ticket)
    (its : s.cancels.lookup pump.subId = some pump.ticket.2 →
      next.seq.toNat = moved pump.subId)
    (others : ∀ holder ∈ s.subs, s.cancels.lookup holder.subId = some holder.ticket.2 →
      holder ≠ pump → moved holder.subId = counter holder.subId)
    (ready : Ready memory funnel moved) :
    Agrees { s with subs := s.subs.set index next, funnel } memory moved where
  vacant gone := agrees.vacant gone
  running {sub live} opened := by
    obtain ⟨holder, mem, rfl, own, count, entry⟩ := agrees.running opened
    simp only [Pump.ticket, Prod.mk.injEq, CancelHandle.mk.injEq] at same
    by_cases one : holder = pump
    · subst one
      refine ⟨next, ?_, same.1, same.2.1.trans own, its entry, ?_⟩
      · exact List.mem_set (List.getElem?_eq_some_iff.mp found).1 next
      · rw [entry, Pump.ticket, Pump.ticket, same.2.1, same.2.2]
    · refine ⟨holder, ?_, rfl, own, (others holder mem entry one).symm ▸ count, entry⟩
      obtain ⟨place, holds⟩ := List.mem_iff_getElem?.mp mem
      have elsewhere : index ≠ place := by
        rintro rfl
        exact one (Option.some.inj (holds.symm.trans found))
      exact List.mem_of_getElem? (by rw [List.getElem?_set_ne elsewhere, holds])
  ready := ready

theorem counted (agrees : Agrees s memory counter) (table : Table config s) {pump : Pump}
    (mem : pump ∈ s.subs) (entry : s.cancels.lookup pump.subId = some pump.ticket.2) :
    ∃ live, memory pump.subId = some live ∧ live.generation = pump.generation ∧
      pump.seq.toNat = counter pump.subId := by
  cases opened : memory pump.subId with
  | none => exact absurd ((agrees.vacant opened).symm.trans entry) (by simp)
  | some live =>
      obtain ⟨holder, holder_mem, sub, own, count, its⟩ := agrees.running opened
      have handles : holder.ticket.2 = pump.ticket.2 := Option.some.inj (its.symm.trans entry)
      have one : holder = pump := List.inj_on_of_nodup_map table.pump_generations holder_mem mem
        (congrArg CancelHandle.generation handles)
      subst one
      exact ⟨live, rfl, own.symm, count⟩

end Agrees

theorem mem_eraseIdx_of_ne {α : Type*} {list : List α} {index : ℕ} {gone kept : α}
    (found : list[index]? = some gone) (mem : kept ∈ list) (distinct : kept ≠ gone) :
    kept ∈ list.eraseIdx index := by
  obtain ⟨place, holds⟩ := List.mem_iff_getElem?.mp mem
  refine List.mem_eraseIdx_iff_getElem?.mpr ⟨place, ?_, holds⟩
  rintro rfl
  exact distinct (Option.some.inj (holds.symm.trans found))

/-- One step of a settled run is isolated and keeps the log in step with the session. -/
theorem Agrees.took {memory : String → Option Live} {counter : String → ℕ}
    (agrees : Agrees s memory counter) (table : Table config s) {input : Input} {after : State}
    {emitted : List Record} (settled : Settled codec config s input)
    (took : Took codec config s input after emitted) :
    isolation.Accepts memory emitted ∧
      (after.closed = false →
        ∃ counter, Agrees after (isolation.remember memory emitted) counter) := by
  cases took with
  | plain plain =>
      obtain ⟨accepts, same⟩ := isolation_quiet memory
        fun record mem => (plain record mem).quiet
      rw [same]
      exact ⟨accepts, fun _ => ⟨counter, agrees.vacant, agrees.running, agrees.ready⟩⟩
  | @reset _ _ _ _ records plain =>
      obtain ⟨accepts, same⟩ := isolation_quiet (fun _ => none)
        fun record mem => (plain record mem).quiet
      refine ⟨⟨trivial, accepts⟩, fun _ => ⟨counter, ?_⟩⟩
      rw [Monitor.remember_cons]
      change Agrees _ (isolation.remember (fun _ => none) records) counter
      rw [same]
      exact ⟨fun _ => by simp, fun opened => absurd opened (by simp),
        fun _ _ opened => absurd opened (by simp)⟩
  | @accepted _ answer _ id _ _ decoded admitted opened sent =>
      obtain ⟨unqueued, inRange⟩ := settled _ _ decoded admitted opened
      have free : s.cancels.lookup (subKey id) = none := by
        simp only [State.admits, Bool.and_eq_true, Option.isNone_iff_eq_none] at admitted
        exact admitted.1
      obtain ⟨accepts, last, bound, remembered⟩ := accepts_opening codec config
        (Function.update_self (subKey id) (some ⟨s.nextGeneration, 0⟩) memory) inRange
      cases sent with
      | whole =>
          refine ⟨⟨agrees.vacant_of_lookup free, accepts⟩, fun _ =>
            ⟨Function.update counter (subKey id) (burstEnd answer.snapshots).toNat, ?_⟩⟩
          rw [Monitor.remember_cons]
          change Agrees _ (isolation.remember (Function.update memory (subKey id) _) _) _
          rw [remembered, Function.update_idem]
          exact agrees.register (by rwa [burstEnd_toNat inRange]) unqueued
  | @interrupted _ answer _ id _ _ decoded admitted opened sent =>
      obtain ⟨unqueued, inRange⟩ := settled _ _ decoded admitted opened
      have free : s.cancels.lookup (subKey id) = none := by
        simp only [State.admits, Bool.and_eq_true, Option.isNone_iff_eq_none] at admitted
        exact admitted.1
      have accepts := (accepts_opening codec config
        (Function.update_self (subKey id) (some ⟨s.nextGeneration, 0⟩) memory) inRange).1
      exact ⟨⟨agrees.vacant_of_lookup free, accepts_sent isolation_ignores accepts sent⟩,
        fun open_ => absurd open_ (by simp [State.stay])⟩
  | @unsubscribed _ _ _ sub _ _ =>
      exact ⟨⟨trivial, trivial⟩,
        fun _ => ⟨counter, agrees.close sub fun _ mem _ => mem⟩⟩
  | @event _ queued rest _ _ funnel sent =>
      obtain ⟨accepts, flushed⟩ := agrees.flush codec
        (show s.funnel = [queued] ++ rest from funnel)
      refine ⟨accepts_sent isolation_ignores accepts sent, ?_⟩
      cases sent with
      | whole => exact fun _ => ⟨counter, flushed.vacant, flushed.running, flushed.ready⟩
      | cut => exact fun open_ => absurd open_ (by simp [State.stay])
  | foreign found _ foreign =>
      refine ⟨⟨trivial, trivial⟩,
        fun _ => ⟨counter, agrees.reap fun holder mem entry => ?_⟩⟩
      apply mem_eraseIdx_of_ne found mem
      rintro rfl
      have own := (table.owns_iff_running mem).mpr entry
      simp [own] at foreign
  | @pruned _ _ pump found =>
      refine ⟨⟨trivial, trivial, trivial⟩,
        fun _ => ⟨counter, agrees.close pump.subId ?_⟩⟩
      exact fun holder mem distinct => mem_eraseIdx_of_ne found mem (distinct <| · ▸ rfl)
  | @lastWord _ _ pump flush reply found _ _ sent replied =>
      have closed := agrees.close pump.subId
        fun holder mem distinct => mem_eraseIdx_of_ne found mem (distinct <| · ▸ rfl)
      obtain ⟨accepts, flushed⟩ := closed.flush codec (List.append_nil s.funnel).symm
      have quiet : ∀ record ∈ reply, record.Quiet := by
        rcases replied with ⟨rfl, -⟩ | ⟨_, _, -, replied⟩
        · simp
        · exact quiet_of_sent replied (by simp [Outbound.numbered])
      cases sent with
      | whole =>
          obtain ⟨said, same⟩ := isolation_quiet
            (isolation.remember (Function.update memory pump.subId none)
              (said codec (Server.flushed s.funnel))) quiet
          refine ⟨⟨trivial, trivial, Monitor.accepts_append.mpr ⟨accepts, said⟩⟩,
            fun _ => ⟨counter, ?_⟩⟩
          rw [Monitor.remember_cons, Monitor.remember_cons, Monitor.remember_append]
          change Agrees _ (isolation.remember (isolation.remember
            (Function.update memory pump.subId none) _) _) counter
          rw [same]
          exact ⟨flushed.vacant, flushed.running, flushed.ready⟩
  | @silenced _ _ pump _ found _ _ sent =>
      have closed := agrees.close pump.subId
        fun holder mem distinct => mem_eraseIdx_of_ne found mem (distinct <| · ▸ rfl)
      obtain ⟨accepts, -⟩ := closed.flush codec (List.append_nil s.funnel).symm
      exact ⟨⟨trivial, trivial, accepts_sent isolation_ignores accepts sent⟩,
        fun open_ => absurd open_ (by simp)⟩
  | @queued index pump update found _ running =>
      have mem := List.mem_of_getElem? found
      have entry := (table.running_iff mem).mp running
      obtain ⟨live, opened, own, count⟩ := agrees.counted table mem entry
      have next := numbered_toNat (settled pump found)
      refine ⟨⟨trivial, trivial, trivial⟩, fun _ => ⟨Function.update counter pump.subId
        (pump.seq + (update.skipped + 1)).toNat, agrees.advance found rfl ?_ ?_ ?_⟩⟩
      · simp
      · intro holder holder_mem its distinct
        exact Function.update_of_ne (table.sole mem holder_mem entry its distinct) _ _
      · intro sub other was
        rcases eq_or_ne sub pump.subId with rfl | distinct
        · obtain rfl := Option.some.inj (opened.symm.trans was)
          rw [Function.update_self]
          have above : counter pump.subId < (pump.numbered update).seq.toNat := by
            rw [← count, Pump.numbered, next]
            omega
          exact (agrees.ready _ _ opened).push own.symm above
        · rw [Function.update_of_ne distinct]
          exact (agrees.ready _ _ was).other distinct.symm
  | @overflowed index pump update found _ running =>
      have mem := List.mem_of_getElem? found
      have entry := (table.running_iff mem).mp running
      obtain ⟨live, opened, own, count⟩ := agrees.counted table mem entry
      have next := numbered_toNat (settled pump found)
      refine ⟨⟨trivial, trivial⟩, fun _ => ⟨Function.update counter pump.subId
        (pump.seq + (update.skipped + 1)).toNat, agrees.advance found rfl ?_ ?_ ?_⟩⟩
      · simp
      · intro holder holder_mem its distinct
        exact Function.update_of_ne (table.sole mem holder_mem entry its distinct) _ _
      · intro sub other was
        rcases eq_or_ne sub pump.subId with rfl | distinct
        · rw [Function.update_self]
          exact (agrees.ready _ _ was).raise (by omega)
        · rw [Function.update_of_ne distinct]
          exact agrees.ready _ _ was
  | @finished index pump found =>
      refine ⟨trivial, fun _ => ⟨counter, agrees.advance found rfl ?_ ?_ agrees.ready⟩⟩
      · intro entry
        obtain ⟨_, -, -, count⟩ := agrees.counted table (List.mem_of_getElem? found) entry
        exact count
      · exact fun _ _ _ _ => rfl

/-- In every settled run each subscription is isolated from the earlier ones under
its id. -/
theorem isolated_of_settled {log : List Record}
    (reached : Runs codec config (Settled codec config) s log) : Isolated log := by
  have invariant : isolation.Accepts (fun _ => none) log ∧ (s.closed = false →
      ∃ counter, Agrees s (isolation.remember (fun _ => none) log) counter) := by
    refine reached.invariant (fun s log => isolation.Accepts (fun _ => none) log ∧
      (s.closed = false → ∃ counter, Agrees s (isolation.remember (fun _ => none) log) counter))
      ?_ ?_
    · refine ⟨trivial, fun _ => ⟨fun _ => 0, fun _ => rfl, ?_, ?_⟩⟩
      · exact fun opened => absurd opened (by simp)
      · exact fun _ _ opened => absurd opened (by simp)
    · intro state log input after emitted reached settled stepped held
      obtain ⟨isOpen, took⟩ := took_of_step stepped
      obtain ⟨accepts, agrees⟩ := held
      obtain ⟨counter, agrees⟩ := agrees isOpen
      obtain ⟨more, agrees⟩ := agrees.took (table_of_runs reached) settled took
      rw [Monitor.accepts_append, Monitor.remember_append]
      exact ⟨⟨accepts, more⟩, agrees⟩
  exact isolated_of_accepts invariant.1

/-- The session once its first Subscribe is accepted. -/
def subscribed : State :=
  { subs := [⟨"5", 0, 0, 0, none⟩], cancels := AList.insert "5" ⟨0, 0⟩ ∅,
    nextGeneration := 1, channels := 1 }

/-- The session with the first update of that subscription queued. -/
def waiting : State :=
  { subscribed with
    subs := [⟨"5", 0, 0, 1, none⟩], funnel := [⟨0, ⟨"5", 1, none, 7, utf8 "1"⟩⟩] }

set_option maxRecDepth 4000 in
theorem isolated_of_settled_event :
    Isolated [.accepted "5" 0 0, .pulled 0 (.new (utf8 "1") 7),
      .queued 0 ⟨"5", 1, none, 7, utf8 "1"⟩,
      .sent (some 0) (.event "5" 1 none 7 (utf8 "1"))] := by
  have accepts : step aimx {} {} subscribes = some (subscribed, [.accepted "5" 0 0]) := rfl
  have pushes : step aimx {} subscribed (.update 0 (.new (utf8 "1") 7)) = some (waiting,
      [.pulled 0 (.new (utf8 "1") 7), .queued 0 ⟨"5", 1, none, 7, utf8 "1"⟩]) := rfl
  have sends : step aimx {} waiting (.event []) = some ({ waiting with funnel := [] },
      [.sent (some 0) (.event "5" 1 none 7 (utf8 "1"))]) := rfl
  refine isolated_of_settled (((Reaches.start.next ?_ accepts).next ?_ pushes).next ?_ sends)
  · intro _ _ _ _ _
    exact ⟨by simp, by decide⟩
  · intro pump found
    obtain rfl : _ = pump := Option.some.inj found
    decide
  · trivial

/-- An id taken again while an event of its former subscription waits in the
funnel: the event goes out under the new subscription. -/
theorem stale_event_delivered :
    ∃ s log, Reachable (step aimx {}) {} s log ∧ ¬ Isolated log := by
  have replayed : (replay (step aimx {}) {} [subscribes, .update 0 (.new (utf8 "1") 7),
      unsubscribes, subscribes, .event []]).map Prod.snd =
      some [.accepted "5" 0 0, .pulled 0 (.new (utf8 "1") 7),
        .queued 0 ⟨"5", 1, none, 7, utf8 "1"⟩, .ended "5" 0, .accepted "5" 1 0,
        .sent (some 0) (.event "5" 1 none 7 (utf8 "1"))] := by decide
  obtain ⟨⟨s, log⟩, run, rfl⟩ := Option.map_eq_some_iff.mp replayed
  refine ⟨s, _, reachable_of_replay run, fun isolated => ?_⟩
  have split : _ = ([.accepted "5" 0 0, .pulled 0 (.new (utf8 "1") 7),
      .queued 0 ⟨"5", 1, none, 7, utf8 "1"⟩, .ended "5" 0] : List Record) ++
        .accepted "5" 1 0 :: ([.sent (some 0) (.event "5" 1 none 7 (utf8 "1"))] ++ []) := rfl
  have own : some 0 = some 1 := isolated.own split (by simp [Record.Ends]) List.mem_cons_self rfl
  exact absurd own (by decide)

end AimDb.Session.Server
