import AimDb.Session.Aimx.Drain.Served

/-!
# What a get answers

A get answers with the newest push that encodes, unless one that does not encode ends it short of
that one.  Drains lose nothing there: the next call reads on.
-/

namespace AimDb.Session.Aimx.Drain

variable {V J : Type} {records : String → Lookup V J} {s after : AimxSession V J}
  {log events : List (Event V J)} {name : String} {encode : V → Option J} {reader : Reader V}
  {call : Call J}

/-- The newest push that encodes, or `NotFound` where nothing was pushed behind the last value that
an earlier call read. -/
def Newest (encode : V → Option J) (name : String) (unread : List (Stamped V))
    (log : List (Event V J)) : Option (Stamped J) → Prop
  | some value =>
      (heard name log).map (fun pushes => (pushes.filterMap (encodeSample encode)).getLast?) =
        some (some value)
  | none => reading log = [] ∧ skipped name log = [] ∧ unread = []

/-- A value that does not encode ends no get, unless the get has read one that does and of the
pushes behind that one, overwritten or unread, none encodes or the last that does gives the
same. -/
def Uncut (encode : V → Option J) (call : Call J) (reader : Reader V) (log : List (Event V J)) :
    Prop :=
  call.kind = .get → reader.missed = 0 → ∀ sample rest, reader.unread = sample :: rest →
    encodeSample encode sample = none →
      reading log ≠ [] ∧ ∀ value,
        ((skipped call.name log ++ rest).filterMap (encodeSample encode)).getLast? = some value →
          (reading log).getLast?.bind (encodeSample encode) = some value

structure Serves (records : String → Lookup V J) : Prop where
  /-- An open cursor has lost and repeated nothing. -/
  accounted : ∀ {s : AimxSession V J} {log : List (Event V J)},
    Transition.Reachable (step records) {} s log → ∀ {name reader},
    s.drainReaders name = some reader → ∃ encode, records name = .ring encode ∧
      Ledger encode name reader log (s.inHand name)
  limited : ∀ {s : AimxSession V J} {log : List (Event V J)},
    Transition.Reachable (step records) {} s log → ∀ {name limit values count},
    .drained name limit values count ∈ log →
      count = values.length ∧ ∀ most, limit = some most → values.length ≤ most
  answered : ∀ {s after : AimxSession V J} {log events : List (Event V J)},
    Transition.Reachable (step records) {} s log → ∀ {call reader encode},
    s.call = some call → s.drainReaders call.name = some reader →
    records call.name = .ring encode → step records s .recv = some (after, events) →
    ∀ {name values result}, .got name values result ∈ events →
      ((∃ left, after.drainReaders name = some left ∧
          Newest encode name left.unread (log ++ events) result) ↔
        Uncut encode call reader log)

theorem Calling.reading_nil (calling : Calling records log call)
    (isRing : records call.name = .ring encode) : reading log = [] ↔ call.values = [] := by
  have encoded := calling.encoded encode isRing
  constructor
  · intro nothing
    rw [nothing] at encoded
    exact List.map_eq_nil_iff.mp encoded.symm
  · intro nothing
    rw [nothing] at encoded
    exact List.map_eq_nil_iff.mp encoded

theorem Calling.getLast?_values (calling : Calling records log call)
    (isRing : records call.name = .ring encode) :
    (reading log).getLast?.bind (encodeSample encode) = call.values.getLast? := by
  have encoded := congrArg List.getLast? (calling.encoded encode isRing)
  rw [List.getLast?_map, List.getLast?_map] at encoded
  cases read : (reading log).getLast? with
  | none =>
      rw [read, Option.map_none, eq_comm, Option.map_eq_none_iff] at encoded
      rw [encoded, Option.bind_none]
  | some sample =>
      rw [read, Option.map_some, eq_comm, Option.map_eq_some_iff] at encoded
      obtain ⟨value, last, encodes⟩ := encoded
      rw [last, Option.bind_some, encodes]

theorem Calling.getLast?_append_iff (calling : Calling records log call)
    (isRing : records call.name = .ring encode) (others : List (Stamped J)) :
    (call.values ≠ [] ∧ (call.values ++ others).getLast? = call.values.getLast?) ↔
      reading log ≠ [] ∧ ∀ value, others.getLast? = some value →
        (reading log).getLast?.bind (encodeSample encode) = some value := by
  rw [calling.getLast?_values isRing, List.getLast?_append, ne_eq, ne_eq,
    calling.reading_nil isRing]
  apply and_congr_right
  intro _
  cases others.getLast? with
  | none => simp
  | some other => simp [eq_comm]

theorem Calling.last_encoded (calling : Calling records log call)
    (isRing : records call.name = .ring encode) (nonempty : call.values ≠ [])
    {earlier : List (Stamped V)}
    (last : earlier.getLast? = (log.flatMap (Event.received? call.name)).getLast?) :
    (earlier.filterMap (encodeSample encode)).getLast? = call.values.getLast? := by
  have encoded := congrArg List.getLast? (calling.encoded encode isRing)
  rw [List.getLast?_map, List.getLast?_map] at encoded
  obtain ⟨before, all⟩ := calling.suffix
  have read : reading log ≠ [] :=
    fun nothing => nonempty ((calling.reading_nil isRing).mp nothing)
  obtain ⟨reads, sample, isRead⟩ := List.eq_nil_or_concat (reading log) |>.resolve_left read
  have newest : earlier.getLast? = some sample := by
    rw [last, ← all, isRead]
    simp
  obtain ⟨front, rfl⟩ := List.getLast?_eq_some_iff.mp newest
  cases value : call.values.getLast? with
  | none => exact absurd (List.getLast?_eq_none_iff.mp value) nonempty
  | some found =>
      have encodes : encodeSample encode sample = some found := by
        simpa [isRead, value] using encoded
      simp [encodes]

theorem newest_ends (calling : Calling records log call)
    (isRing : records call.name = .ring encode) {inHand : List (Stamped J)}
    (ledger : Ledger encode call.name reader log inHand) (next : reader.unread = []) :
    Newest encode call.name reader.unread (log ++ [call.reply]) call.values.getLast? := by
  have same : reading (log ++ [(call.reply : Event V J)]) = reading log := by
    rw [reading_append]
    exact reply_reads call _
  have unskipped : skipped call.name log = [] := by
    by_contra skips
    exact ledger.newest skips next
  cases value : call.values.getLast? with
  | none =>
      refine ⟨?_, ?_, next⟩
      · rw [same, calling.reading_nil isRing]
        exact List.getLast?_eq_none_iff.mp value
      · rw [skipped_append, unskipped]
        exact reply_skips call _ _
  | some found =>
      obtain ⟨earlier, pushes, last⟩ := ledger.position
      have nonempty : call.values ≠ [] := by
        rintro nothing
        rw [nothing] at value
        cases value
      rw [Newest, heard_append, List.foldl_cons, reply_hears, List.foldl_nil, pushes, unskipped,
        next, List.append_nil, List.append_nil, Option.map_some,
        calling.last_encoded isRing nonempty last, value]

theorem newest_fails (calling : Calling records log call)
    (isRing : records call.name = .ring encode) {inHand : List (Stamped J)}
    (ledger : Ledger encode call.name reader log inHand) {sample : Stamped V}
    {rest : List (Stamped V)} (next : reader.unread = sample :: rest)
    (failed : encodeSample encode sample = none) :
    Newest encode call.name rest (log ++ [.received call.name sample, call.reply])
        call.values.getLast? ↔
      reading log ≠ [] ∧ ∀ value,
        ((skipped call.name log ++ rest).filterMap (encodeSample encode)).getLast? = some value →
          (reading log).getLast?.bind (encodeSample encode) = some value := by
  rw [← calling.getLast?_append_iff isRing]
  cases value : call.values.getLast? with
  | none =>
      have nothing := List.getLast?_eq_none_iff.mp value
      constructor
      · rintro ⟨read, -, -⟩
        rw [reading_append, List.foldl_cons, List.foldl_cons, reply_reads] at read
        simp [reads] at read
      · exact fun met => absurd nothing met.1
  | some found =>
      obtain ⟨earlier, pushes, last⟩ := ledger.position
      have nonempty : call.values ≠ [] := by
        rintro nothing
        rw [nothing] at value
        cases value
      have encoded := calling.last_encoded isRing nonempty last
      have all : (heard call.name (log ++ [.received call.name sample, call.reply])).map
            (fun pushes => (pushes.filterMap (encodeSample encode)).getLast?) =
          some ((call.values ++
            (skipped call.name log ++ rest).filterMap (encodeSample encode)).getLast?) := by
        have unheard : hears call.name (heard call.name log)
          (.received call.name sample : Event V J) =
            heard call.name log := rfl
        rw [heard_append, List.foldl_cons, List.foldl_cons, reply_hears, List.foldl_nil, unheard,
          pushes, next, Option.map_some, List.filterMap_append, List.filterMap_append,
          List.filterMap_cons_none failed, ← List.filterMap_append, List.getLast?_append,
          List.getLast?_append, encoded]
      rw [Newest, all, Option.some.injEq]
      exact (and_iff_right nonempty).symm

theorem reply_got {values : List (Stamped J)} {result : Option (Stamped J)}
    (mem : (.got name values result : Event V J) = call.reply) :
    call.kind = .get ∧ name = call.name ∧ result = call.values.getLast? := by
  unfold Call.reply at mem
  split at mem
  next isGet =>
    cases mem
    exact ⟨isGet, rfl, rfl⟩
  · cases mem

theorem newest_iff_uncut (reached : Transition.Reachable (step records) {} s log)
    (isCall : s.call = some call) (isReader : s.drainReaders call.name = some reader)
    (isRing : records call.name = .ring encode)
    (stepped : step records s .recv = some (after, events)) {values : List (Stamped J)}
    {result : Option (Stamped J)} (answered : .got name values result ∈ events) :
    (∃ left, after.drainReaders name = some left ∧
        Newest encode name left.unread (log ++ events) result) ↔
      Uncut encode call reader log := by
  have kept := kept_of_reachable reached
  have calling := kept.calling call isCall
  obtain ⟨found, isFound, ledger⟩ := kept.opened call.name reader isReader
  obtain ⟨_, _, _, hasCall, hasReader, hasRing, turned⟩ := step_recv stepped
  rw [isCall] at hasCall
  cases hasCall
  rw [isReader] at hasReader
  cases hasReader
  rw [isRing] at hasRing isFound
  cases hasRing
  cases isFound
  cases turned with
  | full full =>
      obtain ⟨isGet, -, -⟩ := reply_got (List.mem_singleton.mp answered)
      rw [Call.isFull, isGet] at full
      cases full
  | lags room missed => cases answered
  | ends room current next =>
      obtain ⟨-, rfl, rfl⟩ := reply_got (List.mem_singleton.mp answered)
      constructor
      · intro _ _ _ sample rest isNext
        rw [next] at isNext
        cases isNext
      · exact fun _ => ⟨reader, setReader_self .., newest_ends calling isRing ledger next⟩
  | takes room current next encoded => simp at answered
  | @fails sample rest room current next failed =>
      rcases List.mem_cons.mp answered with isReceived | isReply
      · cases isReceived
      obtain ⟨isGet, rfl, rfl⟩ := reply_got (List.mem_singleton.mp isReply)
      have met := newest_fails calling isRing ledger next failed
      constructor
      · rintro ⟨left, isLeft, newest⟩ - - other others isNext _
        rw [next] at isNext
        cases isNext
        have isRest := setReader_self s call.name { reader with unread := rest }
        cases isRest.symm.trans isLeft
        exact met.mp newest
      · intro uncut
        have newest := met.mpr (uncut isGet current sample rest next failed)
        exact ⟨_, setReader_self .., newest⟩

/-- Every run serves its cursors, and its gets answer with the newest push that encodes where no
value that does not encode cuts them short. -/
theorem serves (records : String → Lookup V J) : Serves records where
  accounted reached _ _ isReader := (kept_of_reachable reached).opened _ _ isReader
  limited reached _ _ _ _ mem := (kept_of_reachable reached).limited _ _ _ _ mem
  answered reached _ _ _ isCall isReader isRing stepped _ _ _ got :=
    newest_iff_uncut reached isCall isReader isRing stepped got

def positive (value : ℕ) : Option ℕ := if value = 0 then none else some value

def numbers : String → Lookup ℕ ℕ
  | "numbers" => .ring positive
  | _ => .unknown

def getsAcross : List (Action ℕ) :=
  [.call "numbers" .get, .recv, .push "numbers" ⟨1, 1⟩ 0, .push "numbers" ⟨0, 2⟩ 0,
    .push "numbers" ⟨2, 3⟩ 0, .call "numbers" .get, .recv, .recv]

/-- The second get answers with 1, though 2 was pushed behind it and encodes. -/
theorem get_stopped_short : ∃ s log, Transition.Reachable (step numbers) {} s log ∧
    log.getLast? = some (.got "numbers" [⟨1, 1⟩] (some ⟨1, 1⟩)) ∧
      heard "numbers" log = some [⟨1, 1⟩, ⟨0, 2⟩, ⟨2, 3⟩] ∧
      encodeSample positive ⟨2, 3⟩ = some ⟨2, 3⟩ := by
  obtain ⟨outcome, same, held⟩ := Option.any_eq_true .. |>.mp
    (show (Transition.replay (step numbers) {} getsAcross).any (fun outcome => decide (
      outcome.2.getLast? = some (.got "numbers" [⟨1, 1⟩] (some ⟨1, 1⟩)) ∧
        heard "numbers" outcome.2 = some [⟨1, 1⟩, ⟨0, 2⟩, ⟨2, 3⟩])) =
          true by decide)
  obtain ⟨answered, pushed⟩ := of_decide_eq_true held
  exact ⟨outcome.1, outcome.2, Transition.reachable_of_replay same, answered, pushed, by rfl⟩

end AimDb.Session.Aimx.Drain
