import AimDb.Session.Aimx.Drain.Ledger

/-!
# What drains and gets answer

A drain answers with at most its limit and leaves the rest unread.  A get answers with the newest
value, unless one that does not encode stopped it before.
-/

namespace AimDb.Session.Aimx.Drain

variable {V J : Type} {records : String → Lookup V J} {s after : AimxSession V J}
  {log events : List (Event V J)} {name : String} {encode : V → Option J} {reader : Reader V}
  {call : Call J}

inductive Turn (s : AimxSession V J) (encode : V → Option J) (call : Call J) (reader : Reader V) :
    AimxSession V J × List (Event V J) → Prop
  | full : call.isFull = true → Turn s encode call reader (s.answer call)
  | lags : call.isFull = false → reader.missed ≠ 0 →
      Turn s encode call reader (s.setReader call.name { reader with missed := 0 }, [])
  | ends : call.isFull = false → reader.missed = 0 → reader.unread = [] →
      Turn s encode call reader ((s.setReader call.name reader).answer call)
  | takes {sample : Stamped V} {rest : List (Stamped V)} {value : Stamped J} :
      call.isFull = false → reader.missed = 0 → reader.unread = sample :: rest →
      encodeSample encode sample = some value →
      Turn s encode call reader
        ({ s.setReader call.name { reader with unread := rest } with
            call := some { call with values := call.values ++ [value] } },
          [.received call.name sample])
  | fails {sample : Stamped V} {rest : List (Stamped V)} :
      call.isFull = false → reader.missed = 0 → reader.unread = sample :: rest →
      encodeSample encode sample = none →
      Turn s encode call reader
        (((s.setReader call.name { reader with unread := rest }).answer call).1,
          .received call.name sample ::
            ((s.setReader call.name { reader with unread := rest }).answer call).2)

theorem turn (s : AimxSession V J) (encode : V → Option J) (call : Call J) (reader : Reader V) :
    Turn s encode call reader (s.recv encode call reader) := by
  unfold AimxSession.recv
  cases full : call.isFull with
  | true => exact .full full
  | false =>
      rw [if_neg (by decide)]
      by_cases current : reader.missed = 0
      · cases next : reader.unread with
        | nil =>
            have empty : reader.tryRecv call.name = (.error .bufferEmpty, reader) := by
              simp [Reader.tryRecv, current, next]
            rw [empty]
            exact .ends full current next
        | cons sample rest =>
            have read : reader.tryRecv call.name =
                (.ok sample, { reader with unread := rest }) := by
              simp [Reader.tryRecv, current, next]
            rw [read]
            dsimp only [tryEncode]
            cases encoded : encodeSample encode sample with
            | none => exact .fails full current next encoded
            | some value => exact .takes full current next encoded
      · have lagged : reader.tryRecv call.name =
            (.error (.bufferLagged (UInt64.ofNat reader.missed) call.name),
              { reader with missed := 0 }) := if_pos current
        rw [lagged]
        exact .lags full current

theorem step_recv (stepped : step records s .recv = some (after, events)) :
    ∃ call reader encode, s.call = some call ∧ s.drainReaders call.name = some reader ∧
      records call.name = .ring encode ∧ Turn s encode call reader (after, events) := by
  unfold step at stepped
  dsimp only at stepped
  split at stepped
  · cases stepped
  next call isCall =>
    split at stepped
    next reader encode isReader isRing =>
      refine ⟨call, reader, encode, isCall, isReader, isRing, ?_⟩
      rw [← Option.some.inj stepped]
      exact turn s encode call reader
    · cases stepped

/-- The values the call in progress has read from a cursor. -/
def AimxSession.inHand (s : AimxSession V J) (name : String) : List (Stamped J) :=
  match s.call with
  | some call => if call.name = name then call.values else []
  | none => []

structure Calling (records : String → Lookup V J) (log : List (Event V J)) (call : Call J) :
    Prop where
  encoded : ∀ encode, records call.name = .ring encode →
    (reading log).map (encodeSample encode) = call.values.map some
  suffix : reading log <:+ log.flatMap (Event.received? call.name)
  within : ∀ limit, call.kind = .drain (some limit) → call.values.length ≤ limit

structure Kept (records : String → Lookup V J) (s : AimxSession V J) (log : List (Event V J)) :
    Prop where
  opened : ∀ name reader, s.drainReaders name = some reader →
    ∃ encode, records name = .ring encode ∧ Ledger encode name reader log (s.inHand name)
  unopened : ∀ name, s.drainReaders name = none → heard name log = none ∧ Silent name log
  calling : ∀ call, s.call = some call → Calling records log call
  limited : ∀ name limit values count, .drained name limit values count ∈ log →
    count = values.length ∧ ∀ most, limit = some most → values.length ≤ most

theorem kept_start (records : String → Lookup V J) : Kept records {} [] where
  opened _ _ isReader := by cases isReader
  unopened _ _ := ⟨rfl, rfl, rfl, rfl, fun _ => rfl⟩
  calling _ isCall := by cases isCall
  limited _ _ _ _ mem := by cases mem

theorem foreign_push {other : String} (differs : name ≠ other) (sample : Stamped V)
    (gone : List (Stamped V)) :
    Foreign other [(.overwrote name gone : Event V J), .pushed name sample] where
  heard _ := by simp [hears, differs]
  received := by simp [Event.received?]
  overwrote := by simp [Event.overwrote?, differs]
  consumed := by simp [Event.consumed?]
  skipped _ := by simp [skips, differs]

theorem setReader_self (s : AimxSession V J) (name : String) (reader : Reader V) :
    (s.setReader name reader).drainReaders name = some reader := Function.update_self ..

theorem setReader_other (s : AimxSession V J) (reader : Reader V) {other : String}
    (differs : other ≠ name) :
    (s.setReader name reader).drainReaders other = s.drainReaders other :=
  Function.update_of_ne differs ..

theorem Kept.setReader (kept : Kept records s log) {changed : AimxSession V J}
    (cursor : changed.drainReaders = (s.setReader name reader).drainReaders)
    (account : ∃ encode, records name = .ring encode ∧
      Ledger encode name reader (log ++ events) (changed.inHand name))
    (foreign : ∀ other, name ≠ other → Foreign other events)
    (hand : ∀ other, name ≠ other → changed.inHand other = s.inHand other)
    (calling : ∀ call, changed.call = some call → Calling records (log ++ events) call)
    (limited : ∀ name limit values count, .drained name limit values count ∈ events →
      count = values.length ∧ ∀ most, limit = some most → values.length ≤ most) :
    Kept records changed (log ++ events) := by
  refine ⟨fun other found isFound => ?_, fun other isNone => ?_, calling,
    fun other limit values count mem => ?_⟩
  · rw [cursor] at isFound
    by_cases same : other = name
    · subst same
      rw [setReader_self] at isFound
      cases isFound
      exact account
    · rw [setReader_other s reader same] at isFound
      obtain ⟨encode, isRing, ledger⟩ := kept.opened other found isFound
      rw [hand other (Ne.symm same)]
      exact ⟨encode, isRing, ledger.foreign (foreign other (Ne.symm same))⟩
  · rw [cursor] at isNone
    by_cases same : other = name
    · subst same
      rw [setReader_self] at isNone
      cases isNone
    · rw [setReader_other s reader same] at isNone
      obtain ⟨unheard, silent⟩ := kept.unopened other isNone
      have quiet := foreign other (Ne.symm same)
      exact ⟨by rw [heard_append, unheard, quiet.heard], silent.append quiet.toSilent⟩
  · rcases List.mem_append.mp mem with mem | mem
    · exact kept.limited other limit values count mem
    · exact limited other limit values count mem

theorem Kept.aside (kept : Kept records s log) {changed : AimxSession V J}
    (cursors : changed.drainReaders = s.drainReaders)
    (hand : ∀ other, changed.inHand other = s.inHand other)
    (foreign : ∀ other, s.drainReaders other ≠ none → Foreign other events)
    (silent : ∀ other, Silent other events ∧ events.foldl (hears other) none = none)
    (calling : ∀ call, changed.call = some call → Calling records (log ++ events) call)
    (limited : ∀ name limit values count, .drained name limit values count ∉ events) :
    Kept records changed (log ++ events) := by
  refine ⟨fun other found isFound => ?_, fun other isNone => ?_, calling,
    fun other limit values count mem => ?_⟩
  · rw [cursors] at isFound
    obtain ⟨encode, isRing, ledger⟩ := kept.opened other found isFound
    rw [hand]
    exact ⟨encode, isRing, ledger.foreign (foreign other (by simp [isFound]))⟩
  · rw [cursors] at isNone
    obtain ⟨unheard, quiet⟩ := kept.unopened other isNone
    exact ⟨by rw [heard_append, unheard, (silent other).2], quiet.append (silent other).1⟩
  · rcases List.mem_append.mp mem with mem | mem
    · exact kept.limited other limit values count mem
    · exact absurd mem (limited other limit values count)

theorem Calling.push {call : Call J} (calling : Calling records log call) (sample : Stamped V)
    {events : List (Event V J)} (pushed : events = [.pushed name sample] ∨
      ∃ gone, events = [.overwrote name gone, .pushed name sample]) :
    Calling records (log ++ events) call := by
  obtain ⟨encoded, suffix, within⟩ := calling
  have read : reading (log ++ events) = reading log := by
    rw [reading_append]
    obtain rfl | ⟨gone, rfl⟩ := pushed <;> rfl
  have received : (log ++ events).flatMap (Event.received? call.name) =
      log.flatMap (Event.received? call.name) := by
    rw [List.flatMap_append]
    obtain rfl | ⟨gone, rfl⟩ := pushed <;> simp [Event.received?]
  exact ⟨by rwa [read], by rwa [read, received], within⟩

theorem Kept.push (kept : Kept records s log) (sample : Stamped V) (overwritten : ℕ)
    (stepped : step records s (.push name sample overwritten) = some (after, events)) :
    Kept records after (log ++ events) := by
  unfold step at stepped
  dsimp only at stepped
  split at stepped
  next reader isReader =>
    cases stepped
    obtain ⟨encode, isRing, ledger⟩ := kept.opened name reader isReader
    apply kept.setReader rfl ⟨encode, isRing, ledger.push sample overwritten⟩
      (fun other differs => foreign_push differs sample _) (fun _ _ => rfl)
    · intro call isCall
      exact (kept.calling call isCall).push sample (.inr ⟨_, rfl⟩)
    · intro _ _ _ _ mem
      simp at mem
  next isNone =>
    cases stepped
    apply kept.aside rfl (fun _ => rfl)
    · intro other isSome
      have differs : name ≠ other := by
        rintro rfl
        exact isSome isNone
      exact ⟨⟨rfl, rfl, rfl, fun _ => rfl⟩, fun _ => if_neg differs⟩
    · intro other
      exact ⟨⟨rfl, rfl, rfl, fun _ => rfl⟩, by simp [hears]⟩
    · intro call isCall
      exact (kept.calling call isCall).push sample (.inl rfl)
    · intro _ _ _ _ mem
      simp at mem

theorem inHand_of_none (isNone : s.call = none) (name : String) : s.inHand name = [] := by
  rw [AimxSession.inHand, isNone]

theorem inHand_began {kind : Kind} (isCall : s.call = some ⟨name, kind, []⟩) (other : String) :
    s.inHand other = [] := by
  rw [AimxSession.inHand, isCall]
  exact ite_self []

theorem calling_began {kind : Kind} (before : List (Event V J)) :
    Calling records (log ++ (before ++ [.began name])) ⟨name, kind, []⟩ where
  encoded _ _ := by simp [← List.append_assoc, reading_append, reads]
  suffix := by simp [← List.append_assoc, reading_append, reads]
  within _ _ := Nat.zero_le _

theorem Kept.refused (kept : Kept records s log) (isNone : s.call = none) (error : RpcError) :
    Kept records s (log ++ [.refused name error]) := by
  apply kept.aside rfl (fun _ => rfl)
  · exact fun _ _ => ⟨⟨rfl, rfl, rfl, fun _ => rfl⟩, fun _ => rfl⟩
  · exact fun _ => ⟨⟨rfl, rfl, rfl, fun _ => rfl⟩, rfl⟩
  · intro call isCall
    rw [isNone] at isCall
    cases isCall
  · intro _ _ _ _ mem
    simp at mem

theorem Kept.begin {kind : Kind} (kept : Kept records s log)
    (stepped : step records s (.call name kind) = some (after, events)) :
    Kept records after (log ++ events) := by
  unfold step at stepped
  dsimp only at stepped
  split at stepped
  · cases stepped
  next isNone =>
    replace stepped := Option.some.inj stepped
    unfold AimxSession.begin at stepped
    split at stepped
    next reader isReader =>
      cases stepped
      refine kept.aside rfl ?_ ?_ ?_ ?_ ?_
      · intro other
        rw [inHand_began rfl, inHand_of_none isNone]
      · exact fun _ _ => ⟨⟨rfl, rfl, rfl, fun _ => rfl⟩, fun _ => rfl⟩
      · exact fun _ => ⟨⟨rfl, rfl, rfl, fun _ => rfl⟩, rfl⟩
      · intro call isCall
        cases isCall
        exact calling_began []
      · intro _ _ _ _ mem
        simp at mem
    next isUnopened =>
      split at stepped
      · cases stepped
        exact kept.refused isNone .notFound
      · cases stepped
        exact kept.refused isNone .internal
      next encode isRing =>
        cases stepped
        have quiet := (kept.unopened name isUnopened).2
        refine kept.setReader rfl ?_ ?_ ?_ ?_ ?_
        · rw [inHand_began rfl]
          exact ⟨encode, isRing, Ledger.opened encode quiet⟩
        · intro other differs
          exact ⟨⟨rfl, rfl, rfl, fun _ => rfl⟩, fun _ => if_neg differs⟩
        · intro other _
          rw [inHand_began rfl, inHand_of_none isNone]
        · intro call isCall
          cases isCall
          exact calling_began [.opened name]
        · intro _ _ _ _ mem
          simp at mem

section Reply

variable (call : Call J) (other : String)

theorem reply_consumed :
    (call.reply : Event V J).consumed? other = if call.name = other then call.values else [] := by
  unfold Call.reply
  cases call.kind <;> rfl

theorem reply_hears (before : Option (List (Stamped V))) :
    hears other before (call.reply : Event V J) = before := by
  unfold Call.reply
  cases call.kind <;> rfl

theorem reply_skips (before : List (Stamped V)) :
    skips other before (call.reply : Event V J) = before := by
  unfold Call.reply
  cases call.kind <;> rfl

theorem reply_reads (before : List (Stamped V)) :
    reads before (call.reply : Event V J) = before := by
  unfold Call.reply
  cases call.kind <;> rfl

theorem reply_received : (call.reply : Event V J).received? other = [] := by
  unfold Call.reply
  cases call.kind <;> rfl

theorem reply_overwrote : (call.reply : Event V J).overwrote? other = [] := by
  unfold Call.reply
  cases call.kind <;> rfl

variable {call other}

theorem foreign_reply (differs : call.name ≠ other) :
    Foreign other [(call.reply : Event V J)] where
  received := by simp [reply_received]
  overwrote := by simp [reply_overwrote]
  consumed := by simp [reply_consumed, differs]
  skipped _ := reply_skips ..
  heard _ := reply_hears ..

theorem foreign_received (differs : call.name ≠ other) (sample : Stamped V) :
    Foreign other [(.received call.name sample : Event V J)] where
  received := by simp [Event.received?, differs]
  overwrote := rfl
  consumed := rfl
  skipped _ := if_neg differs
  heard _ := rfl

theorem Foreign.append {more : List (Event V J)} (foreign : Foreign other events)
    (further : Foreign other more) : Foreign other (events ++ more) where
  toSilent := foreign.toSilent.append further.toSilent
  heard _ := by rw [List.foldl_append, foreign.heard, further.heard]

theorem Ledger.reply (ledger : Ledger encode call.name reader log call.values) :
    Ledger encode call.name reader (log ++ [call.reply]) [] :=
  ledger.answered (by simp [reply_consumed]) (reply_hears call _) (reply_skips call _)
    (reply_received call _) (reply_overwrote call _)

end Reply

theorem inHand_self (isCall : s.call = some call) : s.inHand call.name = call.values := by
  rw [AimxSession.inHand, isCall]
  exact if_pos rfl

theorem inHand_other (isCall : s.call = some call) {other : String}
    (differs : call.name ≠ other) : s.inHand other = [] := by
  rw [AimxSession.inHand, isCall]
  exact if_neg differs

theorem limited_reply (calling : Calling records log call) {limit : Option ℕ}
    {values : List (Stamped J)} {count : ℕ}
    (mem : (.drained name limit values count : Event V J) = call.reply) :
    count = values.length ∧ ∀ most, limit = some most → values.length ≤ most := by
  have within := calling.within
  unfold Call.reply at mem
  split at mem
  · cases mem
  next isDrain =>
    cases mem
    refine ⟨rfl, ?_⟩
    rintro most rfl
    exact within most isDrain

theorem Kept.reply (kept : Kept records s log) (isCall : s.call = some call)
    (changed : AimxSession V J) (read : List (Event V J)) (isNone : changed.call = none)
    (cursor : changed.drainReaders = (s.setReader call.name reader).drainReaders)
    (foreign : ∀ other, call.name ≠ other → Foreign other read)
    (account : ∃ encode, records call.name = .ring encode ∧
      Ledger encode call.name reader (log ++ read) call.values)
    (unanswered : ∀ name limit values count, .drained name limit values count ∉ read) :
    Kept records changed (log ++ (read ++ [call.reply])) := by
  obtain ⟨encode, isRing, ledger⟩ := account
  apply kept.setReader cursor
  · rw [inHand_of_none isNone, ← List.append_assoc]
    exact ⟨encode, isRing, ledger.reply⟩
  · exact fun other differs => (foreign other differs).append (foreign_reply differs)
  · intro other differs
    rw [inHand_of_none isNone, inHand_other isCall differs]
  · intro call isSome
    rw [isNone] at isSome
    cases isSome
  · intro other limit values count mem
    rcases List.mem_append.mp mem with mem | mem
    · exact absurd mem (unanswered other limit values count)
    · exact limited_reply (kept.calling call isCall) (List.mem_singleton.mp mem)

theorem setReader_unchanged (isReader : s.drainReaders name = some reader) :
    (s.setReader name reader).drainReaders = s.drainReaders := by
  unfold AimxSession.setReader
  rw [← isReader]
  exact Function.update_eq_self ..

theorem Calling.lagged (calling : Calling records log call) : Calling records (log ++ []) call := by
  rwa [List.append_nil]

theorem Calling.takes (calling : Calling records log call)
    (isRing : records call.name = .ring encode)
    {sample : Stamped V} {value : Stamped J} (encoded : encodeSample encode sample = some value)
    (room : call.isFull = false) :
    Calling records (log ++ [.received call.name sample])
      { call with values := call.values ++ [value] } where
  encoded found isFound := by
    dsimp only at isFound
    rw [isRing] at isFound
    cases isFound
    simp [reading_append, reads, calling.encoded encode isRing, encoded]
  suffix := by
    obtain ⟨before, all⟩ := calling.suffix
    exact ⟨before, by simp [reading_append, reads, Event.received?, ← all]⟩
  within limit isDrain := by
    have open_ : ¬limit ≤ call.values.length := by
      unfold Call.isFull at room
      dsimp only at isDrain
      rw [isDrain] at room
      exact of_decide_eq_false room
    rw [List.length_append]
    exact Nat.lt_of_not_le open_

theorem Kept.recv (kept : Kept records s log)
    (stepped : step records s .recv = some (after, events)) :
    Kept records after (log ++ events) := by
  obtain ⟨call, reader, encode, isCall, isReader, isRing, turned⟩ := step_recv stepped
  have calling := kept.calling call isCall
  obtain ⟨found, isFound, ledger⟩ := kept.opened call.name reader isReader
  have same : found = encode := by
    rw [isRing] at isFound
    cases isFound
    rfl
  subst same
  rw [inHand_self isCall] at ledger
  cases turned with
  | full full =>
      refine kept.reply isCall _ [] rfl (setReader_unchanged isReader).symm ?_ ?_ ?_
      · exact fun _ _ => ⟨⟨rfl, rfl, rfl, fun _ => rfl⟩, fun _ => rfl⟩
      · rw [List.append_nil]
        exact ⟨found, isRing, ledger⟩
      · exact fun _ _ _ _ => List.not_mem_nil
  | lags room missed =>
      refine kept.setReader rfl ?_ ?_ ?_ ?_ ?_
      · rw [List.append_nil]
        refine ⟨found, isRing, ?_⟩
        rw [← inHand_self isCall] at ledger
        exact ledger.lagged
      · exact fun _ _ => ⟨⟨rfl, rfl, rfl, fun _ => rfl⟩, fun _ => rfl⟩
      · exact fun _ _ => rfl
      · intro other isOther
        exact (kept.calling other isOther).lagged
      · intro _ _ _ _ mem
        cases mem
  | ends room current next =>
      refine kept.reply isCall _ [] rfl rfl ?_ ?_ ?_
      · exact fun _ _ => ⟨⟨rfl, rfl, rfl, fun _ => rfl⟩, fun _ => rfl⟩
      · rw [List.append_nil]
        exact ⟨found, isRing, ledger⟩
      · exact fun _ _ _ _ => List.not_mem_nil
  | @takes sample rest value room current next encoded =>
      have ledger := ledger.read next
      rw [encoded] at ledger
      refine kept.setReader rfl ?_ ?_ ?_ ?_ ?_
      · refine ⟨found, isRing, ?_⟩
        simpa [AimxSession.inHand] using ledger
      · exact fun _ differs => foreign_received differs sample
      · intro other differs
        rw [inHand_other isCall differs]
        exact if_neg differs
      · intro other isOther
        cases isOther
        exact calling.takes isRing encoded room
      · intro _ _ _ _ mem
        simp at mem
  | @fails sample rest room current next failed =>
      have ledger := ledger.read next
      rw [failed, Option.toList_none, List.append_nil] at ledger
      refine kept.reply isCall _ [.received call.name sample] rfl rfl ?_ ?_ ?_
      · exact fun _ differs => foreign_received differs sample
      · exact ⟨found, isRing, ledger⟩
      · intro _ _ _ _ mem
        simp at mem

theorem kept_of_reachable (reached : Transition.Reachable (step records) {} s log) :
    Kept records s log := by
  refine reached.invariant _ (kept_start records)
    fun {s log input after events} _ _ stepped kept => ?_
  cases input with
  | push name sample overwritten => exact kept.push sample overwritten stepped
  | call name kind => exact kept.begin stepped
  | recv => exact kept.recv stepped

end AimDb.Session.Aimx.Drain
