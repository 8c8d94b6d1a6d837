import AimDb.Remote.Stream
import AimDb.Session.Duplex.Accounted

/-!
# A subscriber knows where it stands

What a subscriber of one record is told at a delivery, with everything it was told
before, is the position of the value in the history of the record: the losses of
the ring, of the session's queue and of the wire add up.
-/

namespace AimDb.Session.Server

open Remote.Stream (accounted)

/-- What the pump of a subscription has taken from its stream. -/
def pulledOf (generation : ℕ) (log : List Record) : List SubUpdate :=
  log.filterMap fun record =>
    match record with
    | .pulled origin update => if origin = generation then some update else none
    | _ => none

def Exact (generation : ℕ) (log : List Record) : Prop :=
  ∀ sub snapshots, .accepted sub generation snapshots ∈ log → snapshots = 0

theorem counted_exact {generation : ℕ} {log : List Record} (exact : Exact generation log) :
    counted generation log = accounted (pulledOf generation log) := by
  induction log with
  | nil => rfl
  | cons record log inductionHypothesis =>
      have rest : counted generation log = accounted (pulledOf generation log) :=
        inductionHypothesis fun sub snapshots mem =>
          exact sub snapshots (List.mem_cons_of_mem _ mem)
      have split : counted generation (record :: log) =
          record.adds generation + counted generation log := by
        simp [counted]
      rw [split, rest]
      cases record with
      | accepted sub origin snapshots =>
          by_cases same : origin = generation
          · subst same
            have none_sent : snapshots = 0 := exact sub snapshots (by simp)
            simp [Record.adds, pulledOf, none_sent]
          · simp [Record.adds, pulledOf, same]
      | pulled origin update =>
          by_cases same : origin = generation <;> simp [Record.adds, pulledOf, accounted, same]
      | _ => simp [Record.adds, pulledOf]

end AimDb.Session.Server

namespace AimDb.Session.Duplex

open AimDb.Json AimDb.Transition
open Remote.Stream (Entry Streams accounted)
open Server (Exact pulledOf)

variable {codec : EnvelopeCodec} {clientConfig : Client.ClientConfig} {platform : Client.Platform}
  {serverConfig : Server.SessionConfig} {s after : State} {log : List Event}

theorem carries_event {key sub : String} {seq number : UInt64} {update : SubUpdate}
    {topic : Option String} {ts : Stamp} {data : Payload}
    (carries : Client.Carries key seq update (.event sub number topic ts data)) :
    seq = number ∧ update.ts = ts ∧ update.data = data := by
  generalize same : Outbound.event sub number topic ts data = frame at carries
  cases carries with
  | event =>
      injection same with _ seqs _ stamps datas
      exact ⟨seqs.symm, stamps.symm, datas.symm⟩
  | snapshot => cases same

/-- Whatever record the pump of the subscription streams, what its subscriber has been told
is the position of the update in the history of that record. -/
structure Positioned (s : State) (log : List Event) (stream : ℕ) (update : SubUpdate)
    (id : UInt64) (generation snapshots : ℕ) : Prop where
  subscription : (s.client.streams stream).id = some id
  accepted : .accepted (subKey id) generation snapshots ∈ session log
  position : Exact generation (session log) → ∀ (history : List Entry) (joined : ℕ),
    history.length < 2 ^ 64 → Streams history joined (pulledOf generation (session log)) →
    history[joined + Client.told stream (clientLog log) + update.skipped.toNat]? =
      some (update.data, update.ts)

theorem delivery_positioned {input : Input} {emitted : List Event}
    (reached : Runs codec clientConfig platform serverConfig s log)
    (stepped : step codec clientConfig platform serverConfig s input = some (after, emitted))
    {stream : ℕ} {seq : UInt64} {update : SubUpdate}
    (delivered : .client (.delivered stream seq update) ∈ emitted) :
    ∃ id generation snapshots, Positioned s log stream update id generation snapshots := by
  obtain ⟨total, id, generation, value, has, carries, genuine, -⟩ :=
    (joined_of_runs reached).accounted stepped delivered
  obtain ⟨snapshots, accepted⟩ := genuine.accepted carries.numbered
  refine ⟨id, generation, snapshots, has, accepted, ?_⟩
  intro exact history joined fits streams
  cases genuine with
  | snapshot is_accepted positive within =>
      have none_sent := exact _ _ is_accepted
      omega
  | @event before rest _ _ pulled _ _ split count =>
      obtain ⟨rfl, stamps, datas⟩ := carries_event carries
      have earlier : Exact generation before := fun sub snapshots mem =>
        exact sub snapshots (by simp [split, mem])
      have taken : pulledOf generation (session log) =
          pulledOf generation before ++ pulled :: pulledOf generation rest := by
        simp [split, pulledOf]
      have stands := streams.position fits taken
      rw [Server.counted_exact earlier] at count
      have same : joined + Client.told stream (clientLog log) + update.skipped.toNat =
          joined + accounted (pulledOf generation before) + pulled.skipped.toNat := by
        omega
      rw [same, stamps, datas]
      exact stands

/-- One update lost on the wire, then two in the ring. -/
def skipping : List Input :=
  [.client (.dial (.ok ())), .client (.subscribe "a"), .client (.enqueue 0), .client .take,
    .client .act, .client (.sent true),
    .server (.frame (utf8 "\x7b\"t\":\"sub\",\"id\":1,\"topic\":\"a\"\x7d")
      { subscribe := .ok (), snapshots := [] } []),
    .server (.update 0 ⟨none, utf8 "4", 8, 0, false⟩), .server (.event []), .loseDown 0,
    .server (.update 0 ⟨none, utf8 "7", 9, 2, false⟩), .server (.event [])]

def snapshotless : Server.Record → Bool
  | .accepted _ _ snapshots => snapshots = 0
  | _ => true

/-- The update that arrives is the fourth since the subscription. -/
theorem delivery_positioned_skipping : ∃ s log id generation snapshots,
    Positioned s log 0 ⟨none, utf8 "7", 9, 3, false⟩ id generation snapshots ∧
      Exact generation (session log) ∧ Client.told 0 (clientLog log) = 0 := by
  have permits : Permits (step Server.aimx {} Client.platform32 {}) InRange {} skipping := by
    decide
  have replayed : (replay (step Server.aimx {} Client.platform32 {}) {} skipping).any (fun run =>
      ((session run.2).all snapshotless && Client.told 0 (clientLog run.2) == 0) &&
      (step Server.aimx {} Client.platform32 {} run.1 (.client (.inbound (some
        (utf8 "\x7b\"t\":\"event\",\"sub\":\"1\",\"seq\":4,\"ts\":9,\"data\":7\x7d"))))).any
        fun outcome => outcome.2 =
          [.client (.delivered 0 4 ⟨none, utf8 "7", 9, 3, false⟩)]) = true := by
    decide
  obtain ⟨⟨s, log⟩, run, stepped⟩ := (Option.any_eq_true _ _).mp replayed
  obtain ⟨facts, stepped⟩ := (Bool.and_eq_true _ _).mp stepped
  obtain ⟨without, untold⟩ := (Bool.and_eq_true _ _).mp facts
  obtain ⟨⟨after, emitted⟩, stepped, told⟩ := (Option.any_eq_true _ _).mp stepped
  have reached := Reaches.start.replay permits run
  have only : emitted = [.client (.delivered 0 4 ⟨none, utf8 "7", 9, 3, false⟩)] :=
    of_decide_eq_true told
  obtain ⟨id, generation, snapshots, positioned⟩ :=
    delivery_positioned reached stepped (only ▸ List.mem_singleton_self _)
  refine ⟨s, log, id, generation, snapshots, positioned, ?_, eq_of_beq untold⟩
  intro sub count mem
  exact of_decide_eq_true (List.all_eq_true.mp without _ mem)

end AimDb.Session.Duplex
