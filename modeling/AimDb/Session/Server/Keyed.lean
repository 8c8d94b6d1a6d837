import AimDb.Session.Server.Counted

/-!
# The numbers under one key

A key is accepted when it is asked for.  Where it is accepted once, the numbers
of the values sent under it rise, whatever else the session serves.
-/

namespace AimDb.Session.Server

open AimDb.Json AimDb.Numbering AimDb.Transition

variable {codec : EnvelopeCodec} {config : SessionConfig} {s after : State} {input : Input}
  {log emitted : List Record}

def Record.accepts (key : String) : Record → Bool
  | .accepted sub _ _ => sub = key
  | _ => false

def acceptances (key : String) (log : List Record) : ℕ := log.countP (Record.accepts key)

@[simp] theorem acceptances_append (key : String) (log more : List Record) :
    acceptances key (log ++ more) = acceptances key log + acceptances key more := List.countP_append

theorem acceptances_eq_zero (key : String)
    (unaccepted : ∀ sub generation snapshots, .accepted sub generation snapshots ∉ emitted) :
    acceptances key emitted = 0 := by
  rw [acceptances, List.countP_eq_zero]
  intro record mem accepts
  cases record with
  | accepted sub generation snapshots => exact unaccepted _ _ _ mem
  | _ => cases accepts

theorem Record.Plain.unaccepted {record : Record} (plain : record.Plain) (sub : String)
    (generation snapshots : ℕ) : record ≠ .accepted sub generation snapshots := by
  rintro rfl
  exact plain

theorem Sent.unaccepted {frames : List (Option ℕ × Outbound)} {alive : Bool}
    (sent : Sent codec frames alive emitted) (sub : String) (generation snapshots : ℕ) :
    .accepted sub generation snapshots ∉ emitted := by
  intro mem
  rcases sent.record _ mem with ⟨_, _, same⟩ | ⟨_, same⟩ <;> cases same

theorem Took.accepts (took : Took codec config s input after emitted) :
    (∀ key, acceptances key emitted = 0) ∨
      ∃ bytes answer sends id topic, input = .frame bytes answer sends ∧
        codec.decode bytes = .ok (.subscribe id topic) ∧
        ∀ key, acceptances key emitted = if subKey id = key then 1 else 0 := by
  have answers {id : UInt64} {snapshots : ℕ}
      {frames : List (Option ℕ × Outbound)} {alive : Bool}
      {records : List Record} (sent : Sent codec frames alive records) (key : String) :
      acceptances key (.accepted (subKey id) s.nextGeneration snapshots :: records) =
        if subKey id = key then 1 else 0 := by
    have none := acceptances_eq_zero key sent.unaccepted
    rw [acceptances] at none ⊢
    rw [List.countP_cons, none, Nat.zero_add]
    simp [Record.accepts]
  cases took with
  | plain plain =>
      exact .inl fun key => acceptances_eq_zero key fun _ _ _ mem =>
        (plain _ mem).unaccepted _ _ _ rfl
  | reset plain =>
      refine .inl fun key => acceptances_eq_zero key fun _ _ _ mem => ?_
      rcases List.mem_cons.mp mem with same | mem
      · cases same
      · exact (plain _ mem).unaccepted _ _ _ rfl
  | accepted decoded _ _ sent => exact .inr ⟨_, _, _, _, _, rfl, decoded, answers sent⟩
  | interrupted decoded _ _ sent => exact .inr ⟨_, _, _, _, _, rfl, decoded, answers sent⟩
  | unsubscribed => exact .inl fun key => acceptances_eq_zero key (by simp)
  | event _ sent => exact .inl fun key => acceptances_eq_zero key sent.unaccepted
  | foreign => exact .inl fun key => acceptances_eq_zero key (by simp)
  | pruned => exact .inl fun key => acceptances_eq_zero key (by simp)
  | lastWord _ _ _ flushes replies =>
      refine .inl fun key => acceptances_eq_zero key ?_
      rcases replies with ⟨rfl, -⟩ | ⟨_, _, -, sent⟩
      · simpa using flushes.unaccepted
      · intro sub generation snapshots mem
        rw [List.mem_cons, List.mem_cons, List.mem_append] at mem
        rcases mem with same | same | flushed | replied
        · cases same
        · cases same
        · exact flushes.unaccepted _ _ _ flushed
        · exact sent.unaccepted _ _ _ replied
  | silenced _ _ _ flushes =>
      exact .inl fun key => acceptances_eq_zero key (by simpa using flushes.unaccepted)
  | queued => exact .inl fun key => acceptances_eq_zero key (by simp)
  | overflowed => exact .inl fun key => acceptances_eq_zero key (by simp)
  | finished => exact .inl fun key => acceptances_eq_zero key (by simp)

theorem generation_unique {key : String} (once : acceptances key log ≤ 1)
    {first second one other : ℕ}
    (isFirst : .accepted key first one ∈ log) (isSecond : .accepted key second other ∈ log) :
    first = second := by
  rw [acceptances, List.countP_eq_length_filter] at once
  have inFirst := List.mem_filter.mpr ⟨isFirst, (by simp [Record.accepts] :
    Record.accepts key (.accepted key first one) = true)⟩
  have inSecond := List.mem_filter.mpr ⟨isSecond, (by simp [Record.accepts] :
    Record.accepts key (.accepted key second other) = true)⟩
  cases found : log.filter (Record.accepts key) with
  | nil =>
      rw [found] at inFirst
      cases inFirst
  | cons record rest =>
      rw [found, List.length_cons] at once
      have empty : rest = [] := List.eq_nil_of_length_eq_zero (by omega)
      rw [found, empty, List.mem_singleton] at inFirst inSecond
      cases inFirst.trans inSecond.symm
      rfl

def keyNumber (key : String) (frame : Outbound) : Option ℕ :=
  (frame.numbered.filter fun tag => tag.1 = key).map fun tag => tag.2.toNat

theorem keyNumber_eq_some {key : String} {frame : Outbound} {number : ℕ}
    (numbered : keyNumber key frame = some number) :
    ∃ seq, frame.numbered = some (key, seq) ∧ seq.toNat = number := by
  obtain ⟨⟨sub, seq⟩, found, rfl⟩ := Option.map_eq_some_iff.mp numbered
  rw [Option.filter_eq_some_iff] at found
  obtain ⟨tagged, own⟩ := found
  exact ⟨seq, by rw [tagged, ← of_decide_eq_true own], rfl⟩

def Record.keyNumber (key : String) : Record → Option ℕ
  | .sent _ frame => Server.keyNumber key frame
  | _ => none

theorem Genuine.accepted {generation : ℕ} {frame : Outbound}
    (genuine : Genuine log generation frame)
    {key : String} {seq : UInt64} (numbered : frame.numbered = some (key, seq)) :
    ∃ snapshots, .accepted key generation snapshots ∈ log := by
  cases genuine with
  | snapshot accepted _ _ =>
      cases numbered
      exact ⟨_, accepted⟩
  | event accepted _ _ =>
      cases numbered
      exact ⟨_, accepted⟩

theorem filterMap_sublist {Item Value : Type} {few many : Item → Option Value} {items : List Item}
    (weaker : ∀ item ∈ items, ∀ value, few item = some value → many item = some value) :
    (items.filterMap few).Sublist (items.filterMap many) := by
  induction items with
  | nil => exact List.Sublist.refl _
  | cons item items inductionHypothesis =>
      obtain ⟨first, others⟩ := List.forall_mem_cons.mp weaker
      have shorter := inductionHypothesis others
      cases some_few : few item with
      | some value =>
          rw [List.filterMap_cons_some some_few, List.filterMap_cons_some (first value some_few)]
          exact shorter.cons_cons value
      | none =>
          rw [List.filterMap_cons_none some_few]
          cases some_many : many item with
          | some value =>
              rw [List.filterMap_cons_some some_many]
              exact shorter.cons value
          | none =>
              rw [List.filterMap_cons_none some_many]
              exact shorter

/-- The numbers a session puts on the wire under a key that is accepted once rise. -/
theorem Counts.keyed (counts : Counts s log) {key : String} (once : acceptances key log ≤ 1) :
    (0 :: log.filterMap (Record.keyNumber key)).Pairwise (· < ·) := by
  have origin {record : Record} {number : ℕ} (mem : record ∈ log)
      (found : record.keyNumber key = some number) : ∃ generation snapshots,
        .accepted key generation snapshots ∈ log ∧ record.number generation = some number := by
    cases record with
    | sent origin frame =>
        obtain ⟨seq, tagged, same⟩ := keyNumber_eq_some found
        obtain ⟨own, rfl, genuine⟩ := counts.sent _ _ mem (by rw [tagged]; simp)
        obtain ⟨snapshots, was⟩ := genuine.accepted tagged
        refine ⟨own, snapshots, was, ?_⟩
        rw [Record.number, if_pos rfl, valueNumber, tagged]
        exact congrArg some same
    | _ => cases found
  by_cases served : ∃ generation snapshots, .accepted key generation snapshots ∈ log
  · obtain ⟨generation, snapshots, accepted⟩ := served
    have fewer : (log.filterMap (Record.keyNumber key)).Sublist (numbers generation log) := by
      refine filterMap_sublist fun record mem number found => ?_
      obtain ⟨own, _, was, numbered⟩ := origin mem found
      rw [generation_unique once accepted was]
      exact numbered
    have rising := (counts.rising generation).sublist (List.sublist_append_left _ _)
    exact rising.sorted.sublist (fewer.cons_cons 0)
  · have none : log.filterMap (Record.keyNumber key) = [] := by
      rw [List.filterMap_eq_nil_iff]
      intro record mem
      rw [← Option.not_isSome_iff_eq_none, Option.isSome_iff_exists]
      rintro ⟨number, found⟩
      obtain ⟨own, snapshots, was, -⟩ := origin mem found
      exact served ⟨own, snapshots, was⟩
    rw [none]
    exact List.pairwise_singleton _ _

end AimDb.Session.Server
