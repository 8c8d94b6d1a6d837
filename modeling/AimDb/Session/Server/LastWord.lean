import AimDb.Session.Server.Table
import Mathlib.Data.Set.Insert

/-!
# The last word of a subscription

A subscription whose stream runs out is ended by an error reply, sent behind
every event it still had queued; what a second handshake drops stays dropped.
The books kept here follow the queue of each generation through the log.
-/

namespace AimDb.Session.Server

open AimDb.Json AimDb.Transition

variable {codec : EnvelopeCodec} {config : SessionConfig} {s : State}

/-- The terminal error of the subscription opened with `id`. -/
def lastWord (id : UInt64) : Outbound := .reply id (.error .internal)

/-- The subscription a frame speaks for: a value, an ack, or a terminal reply. -/
def Record.speaksFor : Record → Option String
  | .sent _ (.event sub _ _ _ _) | .sent _ (.snapshot sub _ _ _ _ _)
  | .sent _ (.subscribed sub) => some sub
  | .sent (some _) (.reply id _) => some (subKey id)
  | _ => none

def Record.queuedFrame (codec : EnvelopeCodec) (generation : ℕ) : Record → Option Outbound
  | .queued origin event =>
      if origin = generation ∧ encodes codec event.frame = true then some event.frame else none
  | _ => none

def Record.sentEvent (generation : ℕ) : Record → Option Outbound
  | .sent (some origin) (.event sub seq topic ts data) =>
      if origin = generation then some (.event sub seq topic ts data) else none
  | _ => none

def queuedFrames (codec : EnvelopeCodec) (generation : ℕ) (log : List Record) : List Outbound :=
  log.filterMap (Record.queuedFrame codec generation)

def sentEvents (generation : ℕ) (log : List Record) : List Outbound :=
  log.filterMap (Record.sentEvent generation)

def Record.isLastWord (generation : ℕ) : Record → Bool
  | .sent (some origin) (.reply _ _) => origin = generation
  | _ => false

/-- The books of a session: the first generation of the current session, the next
one, what each still has to send, who has been ended by a reply, and which ids
had their last word. -/
structure Books where
  base : ℕ := 0
  next : ℕ := 0
  owed : ℕ → List Outbound := fun _ => []
  spoken : Set ℕ := ∅
  silent : Set String := ∅

def Books.track (codec : EnvelopeCodec) (books : Books) : Record → Books
  | .accepted sub generation _ =>
      { books with next := generation + 1, silent := books.silent \ {sub} }
  | .queued generation event =>
      if encodes codec event.frame then
        { books with
          owed := Function.update books.owed generation
            (books.owed generation ++ [event.frame]) }
      else books
  | .sent (some generation) (.event _ _ _ _ _) =>
      { books with
        owed := Function.update books.owed generation (books.owed generation).tail }
  | .sent (some generation) (.reply id _) =>
      { books with
        spoken := insert generation books.spoken, silent := insert (subKey id) books.silent }
  | .reset => { books with base := books.next }
  | _ => books

/-- What the books permit to send: only for the current session, nothing for a
silent id, events in the order they are owed, a terminal reply once nothing is. -/
def Books.PermitsSend (books : Books) (origin : Option ℕ) (frame : Outbound) : Prop :=
  (∀ generation, origin = some generation → books.base ≤ generation) ∧
  (∀ sub, Record.speaksFor (.sent origin frame) = some sub → sub ∉ books.silent) ∧
  match origin, frame with
  | some generation, .event sub seq topic ts data =>
      (books.owed generation).head? = some (.event sub seq topic ts data)
  | some generation, .reply _ result =>
      result = .error .internal ∧ books.owed generation = [] ∧ generation ∉ books.spoken
  | _, _ => True

def Books.Permits (books : Books) : Record → Prop
  | .accepted _ generation _ => generation = books.next
  | .queued generation _ => generation ∉ books.spoken
  | .sent origin frame => books.PermitsSend origin frame
  | _ => True

def bookkeeping (codec : EnvelopeCodec) : Monitor Books Record :=
  ⟨Books.track codec, Books.Permits⟩

@[simp] theorem bookkeeping_track (books : Books) (record : Record) :
    (bookkeeping codec).track books record = books.track codec record := rfl

section Log

variable {books : Books} {log : List Record}

theorem owed_append_queued (accepts : (bookkeeping codec).Accepts books log) (generation : ℕ) :
    books.owed generation ++ queuedFrames codec generation log =
      sentEvents generation log ++ ((bookkeeping codec).remember books log).owed generation := by
  induction log generalizing books with
  | nil => simp [queuedFrames, sentEvents]
  | cons record log inductionHypothesis =>
      obtain ⟨permitted, accepts⟩ := Monitor.accepts_cons.mp accepts
      rw [bookkeeping_track] at accepts
      have rest := inductionHypothesis accepts
      rw [Monitor.remember_cons, bookkeeping_track]
      simp only [queuedFrames, sentEvents, List.filterMap_cons] at rest ⊢
      cases record with
      | queued origin event =>
          simp only [Record.queuedFrame, Record.sentEvent]
          by_cases encoded : encodes codec event.frame = true
          · rcases eq_or_ne origin generation with rfl | distinct
            · simpa [Books.track, encoded] using rest
            · simpa [Books.track, encoded, distinct, distinct.symm] using rest
          · simpa [Books.track, encoded] using rest
      | sent origin frame =>
          rcases origin with _ | origin
          · exact rest
          · cases frame with
            | event sub seq topic ts data =>
                simp only [Record.queuedFrame, Record.sentEvent]
                rcases eq_or_ne origin generation with rfl | distinct
                · obtain ⟨others, owed⟩ := List.head?_eq_some_iff.mp permitted.2.2
                  simpa [Books.track, owed] using rest
                · simpa [Books.track, distinct, distinct.symm] using rest
            | reply | snapshot | subscribed | pong => exact rest
      | accepted | pulled | failed | drained | ended | reset => exact rest

/-- Generations are handed out upwards, and a session's first one never exceeds the next. -/
theorem books_grow (accepts : (bookkeeping codec).Accepts books log)
    (ordered : books.base ≤ books.next) :
    books.base ≤ ((bookkeeping codec).remember books log).base ∧
    books.next ≤ ((bookkeeping codec).remember books log).next ∧
    ((bookkeeping codec).remember books log).base ≤
      ((bookkeeping codec).remember books log).next ∧
    ∀ sub generation snapshots, .accepted sub generation snapshots ∈ log →
      generation < ((bookkeeping codec).remember books log).next := by
  induction log generalizing books with
  | nil => simpa using ordered
  | cons record log inductionHypothesis =>
      obtain ⟨permitted, accepts⟩ := Monitor.accepts_cons.mp accepts
      rw [bookkeeping_track] at accepts
      rw [Monitor.remember_cons, bookkeeping_track]
      have grown : books.base ≤ (books.track codec record).base ∧
          books.next ≤ (books.track codec record).next ∧
          (books.track codec record).base ≤
            (books.track codec record).next ∧
          ∀ sub generation snapshots, .accepted sub generation snapshots = record →
            generation < (books.track codec record).next := by
        cases record with
        | accepted sub generation =>
            obtain rfl : generation = books.next := permitted
            simp only [Books.track, Record.accepted.injEq]
            exact ⟨le_rfl, by omega, by omega, by omega⟩
        | queued origin event =>
            by_cases encoded : encodes codec event.frame = true <;>
              simpa [Books.track, encoded] using ordered
        | sent origin frame =>
            rcases origin with _ | origin
            · simpa [Books.track] using ordered
            · cases frame <;> simpa [Books.track] using ordered
        | reset => simpa [Books.track] using ordered
        | pulled | failed | drained | ended => simpa [Books.track] using ordered
      obtain ⟨base, next, order, recent⟩ := inductionHypothesis accepts grown.2.2.1
      refine ⟨grown.1.trans base, grown.2.1.trans next, order, ?_⟩
      intro sub generation snapshots mem
      rcases List.mem_cons.mp mem with now | later
      · exact (grown.2.2.2 sub generation snapshots now).trans_le next
      · exact recent sub generation snapshots later

theorem base_le_origin (accepts : (bookkeeping codec).Accepts books log)
    (ordered : books.base ≤ books.next) {generation : ℕ} {frame : Outbound}
    (mem : .sent (some generation) frame ∈ log) : books.base ≤ generation := by
  obtain ⟨front, rest, rfl⟩ := List.append_of_mem mem
  rw [Monitor.accepts_append, Monitor.accepts_cons] at accepts
  obtain ⟨fronts, permitted, -⟩ := accepts
  exact (books_grow fronts ordered).1.trans (permitted.1 generation rfl)

/-- An id that had its last word stays silent until it is accepted again. -/
theorem silent_until_accepted (accepts : (bookkeeping codec).Accepts books log) {sub : String}
    (silent : sub ∈ books.silent)
    (unopened : ∀ generation snapshots, .accepted sub generation snapshots ∉ log) :
    ∀ record ∈ log, record.speaksFor ≠ some sub := by
  induction log generalizing books with
  | nil => simp
  | cons record log inductionHypothesis =>
      obtain ⟨permitted, accepts⟩ := Monitor.accepts_cons.mp accepts
      rw [bookkeeping_track] at accepts
      have stays : sub ∈ (books.track codec record).silent := by
        cases record with
        | accepted other generation snapshots =>
            have distinct : sub ≠ other := by
              rintro rfl
              exact unopened generation snapshots List.mem_cons_self
            exact ⟨silent, distinct⟩
        | queued origin event =>
            by_cases encoded : encodes codec event.frame = true <;>
              simpa [Books.track, encoded] using silent
        | sent origin frame =>
            rcases origin with _ | origin
            · exact silent
            · cases frame with
              | reply => exact Set.mem_insert_of_mem _ silent
              | event | snapshot | subscribed | pong => exact silent
        | reset | pulled | failed | drained | ended => exact silent
      intro other mem
      rcases List.mem_cons.mp mem with rfl | later
      · intro speaks
        cases other with
        | sent origin frame => exact permitted.2.1 sub speaks silent
        | accepted | queued | reset | pulled | failed | drained | ended =>
            exact absurd speaks (by simp [Record.speaksFor])
      · apply inductionHypothesis accepts stays ?_ other later
        exact fun generation snapshots opened =>
          unopened generation snapshots (List.mem_cons_of_mem _ opened)

/-- A generation ended by a reply queues nothing more and is not ended again. -/
theorem spoken_stays (accepts : (bookkeeping codec).Accepts books log) {generation : ℕ}
    (spoken : generation ∈ books.spoken) :
    queuedFrames codec generation log = [] ∧ log.countP (Record.isLastWord generation) = 0 := by
  induction log generalizing books with
  | nil => exact ⟨rfl, rfl⟩
  | cons record log inductionHypothesis =>
      obtain ⟨permitted, accepts⟩ := Monitor.accepts_cons.mp accepts
      rw [bookkeeping_track] at accepts
      have stays : generation ∈ (books.track codec record).spoken ∧
          queuedFrames codec generation [record] = [] ∧
          Record.isLastWord generation record = false := by
        cases record with
        | queued origin event =>
            have distinct : origin ≠ generation := by
              rintro rfl
              exact permitted spoken
            by_cases encoded : encodes codec event.frame = true <;>
              simpa [Books.track, encoded, queuedFrames, Record.queuedFrame, distinct,
                Record.isLastWord] using spoken
        | sent origin frame =>
            rcases origin with _ | origin
            · exact ⟨spoken, rfl, rfl⟩
            · cases frame with
              | reply =>
                  refine ⟨Set.mem_insert_of_mem _ spoken, rfl, ?_⟩
                  have distinct : origin ≠ generation := by
                    rintro rfl
                    exact permitted.2.2.2.2 spoken
                  simpa [Record.isLastWord] using distinct
              | event | snapshot | subscribed | pong => exact ⟨spoken, rfl, rfl⟩
        | accepted | reset | pulled | failed | drained | ended => exact ⟨spoken, rfl, rfl⟩
      obtain ⟨queued, count⟩ := inductionHypothesis accepts stays.1
      constructor
      · rw [← List.singleton_append, queuedFrames, List.filterMap_append]
        exact (congrArg₂ (· ++ ·) stays.2.1 queued)
      · rw [List.countP_cons, count, stays.2.2]
        rfl

end Log

def owedBy (codec : EnvelopeCodec) (generation : ℕ) (funnel : List Queued) : List Outbound :=
  funnel.filterMap fun queued =>
    if queued.origin = generation ∧ encodes codec queued.event.frame = true then
      some queued.event.frame
    else none

theorem owedBy_cons (generation : ℕ) (queued : Queued) (rest : List Queued) :
    owedBy codec generation (queued :: rest) =
      (if queued.origin = generation ∧ encodes codec queued.event.frame = true then
        [queued.event.frame] else []) ++ owedBy codec generation rest := by
  rw [owedBy, List.filterMap_cons]
  split_ifs <;> rfl

theorem owedBy_append (generation : ℕ) (front rest : List Queued) :
    owedBy codec generation (front ++ rest) =
      owedBy codec generation front ++ owedBy codec generation rest :=
  List.filterMap_append

structure Stocked (codec : EnvelopeCodec) (funnel : List Queued) (books : Books) : Prop where
  recent : ∀ queued ∈ funnel, books.base ≤ queued.origin ∧ queued.origin < books.next
  owed : ∀ generation, books.base ≤ generation →
    books.owed generation = owedBy codec generation funnel
  audible : ∀ queued ∈ funnel, queued.event.sub ∉ books.silent

structure Balanced (codec : EnvelopeCodec) (s : State) (books : Books) : Prop where
  next : books.next = s.nextGeneration
  ordered : books.base ≤ books.next
  recent : ∀ ticket ∈ s.tickets, books.base ≤ ticket.2.generation
  keyed : ∀ ticket ∈ s.tickets, ∃ id, ticket.1 = subKey id
  unspoken : ∀ ticket ∈ s.tickets, ticket.2.generation ∉ books.spoken
  spoken_lt : ∀ generation ∈ books.spoken, generation < books.next
  held : ∀ sub ∈ books.silent, s.cancels.lookup sub = none
  stocked : Stocked codec s.funnel books

namespace Stocked

variable {books : Books} {queued : Queued} {rest : List Queued}

theorem skip (stocked : Stocked codec (queued :: rest) books)
    (skipped : ¬ encodes codec queued.event.frame = true) : Stocked codec rest books where
  recent other mem := stocked.recent other (List.mem_cons_of_mem _ mem)
  owed generation recent := by
    rw [stocked.owed generation recent, owedBy_cons, if_neg (fun its => skipped its.2),
      List.nil_append]
  audible other mem := stocked.audible other (List.mem_cons_of_mem _ mem)

theorem sent (stocked : Stocked codec (queued :: rest) books)
    (encoded : encodes codec queued.event.frame = true) :
    books.PermitsSend (some queued.origin) queued.event.frame ∧
      Stocked codec rest (books.track codec (.sent (some queued.origin) queued.event.frame)) := by
  have recent := stocked.recent queued List.mem_cons_self
  have owed : books.owed queued.origin =
      queued.event.frame :: owedBy codec queued.origin rest := by
    rw [stocked.owed _ recent.1, owedBy_cons, if_pos ⟨rfl, encoded⟩, List.singleton_append]
  constructor
  · refine ⟨?_, ?_, ?_⟩
    · rintro generation ⟨⟩
      exact recent.1
    · rintro sub ⟨⟩
      exact stocked.audible queued List.mem_cons_self
    · exact congrArg List.head? owed
  · constructor
    · exact fun other mem => stocked.recent other (List.mem_cons_of_mem _ mem)
    · intro generation from_base
      simp only [SubEvent.frame, Books.track]
      rcases eq_or_ne generation queued.origin with rfl | distinct
      · rw [Function.update_self, owed, List.tail_cons]
      · rw [Function.update_of_ne distinct, stocked.owed generation from_base, owedBy_cons,
          if_neg (fun its => distinct its.1.symm), List.nil_append]
    · exact fun other mem => stocked.audible other (List.mem_cons_of_mem _ mem)

theorem flushed (codec : EnvelopeCodec) {front rest : List Queued}
    (stocked : Stocked codec (front ++ rest) books) :
    (bookkeeping codec).Accepts books (said codec (flushed front)) ∧
      ∃ owed, (bookkeeping codec).remember books (said codec (flushed front)) =
        { books with owed } ∧
        Stocked codec rest { books with owed } := by
  induction front generalizing books with
  | nil => exact ⟨trivial, books.owed, rfl, stocked⟩
  | cons queued front inductionHypothesis =>
      rw [Server.flushed, List.map_cons]
      by_cases encoded : encodes codec queued.event.frame = true
      · rw [said_encoded encoded, Monitor.accepts_cons, Monitor.remember_cons, bookkeeping_track]
        obtain ⟨permitted, stocked⟩ := stocked.sent encoded
        obtain ⟨accepts, after⟩ := inductionHypothesis stocked
        exact ⟨⟨permitted, accepts⟩, after⟩
      · rw [said_skipped encoded]
        exact inductionHypothesis (stocked.skip encoded)

end Stocked

def Record.Incidental : Record → Prop
  | .sent none (.reply _ _) | .sent none .pong | .failed _ => True
  | .pulled _ _ | .drained _ _ _ | .ended _ _ => True
  | _ => False

theorem Record.Plain.incidental {record : Record} (plain : record.Plain) : record.Incidental := by
  unfold Record.Plain at plain
  split at plain
  · trivial
  · trivial
  · trivial
  · exact absurd plain id

theorem books_incidental (codec : EnvelopeCodec) (books : Books) {records : List Record}
    (incidental : ∀ record ∈ records, record.Incidental) :
    (bookkeeping codec).Accepts books records ∧
      (bookkeeping codec).remember books records = books := by
  have each : ∀ record ∈ records, books.track codec record = books ∧
      books.Permits record := by
    intro record mem
    have passes := incidental record mem
    unfold Record.Incidental at passes
    split at passes
    · exact ⟨rfl, by simp, by simp [Record.speaksFor], trivial⟩
    · exact ⟨rfl, by simp, by simp [Record.speaksFor], trivial⟩
    · exact ⟨rfl, trivial⟩
    · exact ⟨rfl, trivial⟩
    · exact ⟨rfl, trivial⟩
    · exact ⟨rfl, trivial⟩
    · exact absurd passes id
  exact ⟨Monitor.accepts_of_quiet (fun record mem => (each record mem).1)
      (fun record mem => (each record mem).2),
    Monitor.remember_of_quiet fun record mem => (each record mem).1⟩

theorem bookkeeping_ignores (books : Books) (frame : Outbound) :
    (bookkeeping codec).permits books (.failed frame) ∧
      (bookkeeping codec).track books (.failed frame) = books :=
  ⟨trivial, rfl⟩

theorem books_opening (codec : EnvelopeCodec) (config : SessionConfig) (books : Books)
    {sub : String} (snapshots : List Snapshot) (recent : books.base ≤ s.nextGeneration)
    (audible : sub ∉ books.silent) :
    (bookkeeping codec).Accepts books (said codec (s.opening config sub snapshots)) ∧
      (bookkeeping codec).remember books (said codec (s.opening config sub snapshots)) = books := by
  have each : ∀ record ∈ said codec (s.opening config sub snapshots),
      books.track codec record = books ∧ books.Permits record := by
    intro record mem
    obtain ⟨⟨origin, frame⟩, sent, rfl⟩ := List.mem_map.mp mem
    obtain ⟨rfl, rfl | ⟨seq, last, topic, ts, data, rfl⟩⟩ :=
      opening_frames _ (List.mem_of_mem_filter sent)
    · refine ⟨rfl, ?_, ?_, trivial⟩
      · rintro generation ⟨⟩
        exact recent
      · rintro other ⟨⟩
        exact audible
    · refine ⟨rfl, ?_, ?_, trivial⟩
      · rintro generation ⟨⟩
        exact recent
      · rintro other ⟨⟩
        exact audible
  exact ⟨Monitor.accepts_of_quiet (fun record mem => (each record mem).1)
      (fun record mem => (each record mem).2),
    Monitor.remember_of_quiet fun record mem => (each record mem).1⟩

namespace Balanced

variable {books : Books}

theorem shrink (balanced : Balanced codec s books) {after : State}
    (tickets : ∀ ticket ∈ after.tickets, ticket ∈ s.tickets)
    (cancels : ∀ sub, s.cancels.lookup sub = none → after.cancels.lookup sub = none)
    (next : after.nextGeneration = s.nextGeneration) (funnel : after.funnel = s.funnel) :
    Balanced codec after books where
  next := balanced.next.trans next.symm
  ordered := balanced.ordered
  recent ticket mem := balanced.recent ticket (tickets ticket mem)
  keyed ticket mem := balanced.keyed ticket (tickets ticket mem)
  unspoken ticket mem := balanced.unspoken ticket (tickets ticket mem)
  spoken_lt := balanced.spoken_lt
  held sub silent := cancels sub (balanced.held sub silent)
  stocked := funnel ▸ balanced.stocked

theorem lookup_erase_none {cancels : Cancels} (gone sub : String)
    (absent : cancels.lookup sub = none) : (cancels.erase gone).lookup sub = none := by
  rcases eq_or_ne sub gone with rfl | distinct
  · simp
  · rwa [AList.lookup_erase_ne distinct]

theorem tickets_eraseIdx (s : State) (index : ℕ) :
    ∀ ticket ∈ (s.subs.eraseIdx index).map Pump.ticket, ticket ∈ s.tickets :=
  fun _ mem => ((List.eraseIdx_sublist s.subs index).map _).subset mem

theorem flush (balanced : Balanced codec s books) {front rest : List Queued}
    (split : s.funnel = front ++ rest) :
    (bookkeeping codec).Accepts books (said codec (flushed front)) ∧
      ∃ owed, (bookkeeping codec).remember books (said codec (flushed front)) =
        { books with owed } ∧
        Balanced codec { s with funnel := rest } { books with owed } := by
  obtain ⟨accepts, owed, remembered, stocked⟩ :=
    Stocked.flushed codec (split ▸ balanced.stocked)
  exact ⟨accepts, owed, remembered, balanced.next, balanced.ordered, balanced.recent,
    balanced.keyed, balanced.unspoken, balanced.spoken_lt, balanced.held, stocked⟩

theorem register (balanced : Balanced codec s books) (id : UInt64) (snapshots : List Snapshot) :
    Balanced codec (s.register (subKey id) snapshots)
      { books with next := s.nextGeneration + 1, silent := books.silent \ {subKey id} } := by
  have next := balanced.next
  have ordered := balanced.ordered
  have tickets : (s.register (subKey id) snapshots).tickets =
      s.tickets ++ [(subKey id, ⟨s.nextGeneration, s.channels⟩)] := by
    simp [State.tickets, State.register, Pump.ticket]
  constructor
  · rfl
  · exact ordered.trans (by simp only [next]; omega)
  · rw [tickets, List.forall_mem_append, List.forall_mem_singleton]
    exact ⟨balanced.recent, next ▸ ordered⟩
  · rw [tickets, List.forall_mem_append, List.forall_mem_singleton]
    exact ⟨balanced.keyed, id, rfl⟩
  · rw [tickets, List.forall_mem_append, List.forall_mem_singleton]
    refine ⟨balanced.unspoken, fun spoken => ?_⟩
    exact absurd (balanced.spoken_lt _ spoken) (by simp [next])
  · intro generation spoken
    have earlier := balanced.spoken_lt generation spoken
    simp only
    omega
  · rintro sub ⟨silent, distinct⟩
    rw [State.register, AList.lookup_insert_ne distinct]
    exact balanced.held sub silent
  · constructor
    · intro queued mem
      have recent := balanced.stocked.recent queued mem
      simp only
      omega
    · exact balanced.stocked.owed
    · exact fun queued mem silent => balanced.stocked.audible queued mem silent.1

theorem push (balanced : Balanced codec s books) (table : Table config s) {pump : Pump}
    (mem : pump ∈ s.subs) (running : pump.cancelled s.cancels = false) {subs : List Pump}
    (tickets : subs.map Pump.ticket = s.tickets) (update : SubUpdate) :
    books.Permits (.queued pump.generation (pump.numbered update)) ∧
      Balanced codec
        { s with subs, funnel := s.funnel ++ [⟨pump.generation, pump.numbered update⟩] }
        (books.track codec (.queued pump.generation (pump.numbered update))) := by
  have entry := (table.running_iff mem).mp running
  have ticket := Table.ticket_mem mem
  have recent := balanced.recent _ ticket
  have earlier : pump.generation < books.next := by
    rw [balanced.next]
    exact table.generation_lt _ ticket
  refine ⟨balanced.unspoken _ ticket, ?_⟩
  have restocked : ∀ owed, (∀ generation, books.base ≤ generation → owed generation =
        owedBy codec generation (s.funnel ++ [⟨pump.generation, pump.numbered update⟩])) →
      Balanced codec
        { s with subs, funnel := s.funnel ++ [⟨pump.generation, pump.numbered update⟩] }
        { books with owed } := by
    intro owed stocked
    have same : ({ s with
        subs, funnel := s.funnel ++ [⟨pump.generation, pump.numbered update⟩] } :
          State).tickets =
          s.tickets := tickets
    refine ⟨balanced.next, balanced.ordered, same ▸ balanced.recent, same ▸ balanced.keyed,
      same ▸ balanced.unspoken, balanced.spoken_lt, balanced.held, ?_, stocked, ?_⟩
    · rw [List.forall_mem_append, List.forall_mem_singleton]
      exact ⟨balanced.stocked.recent, recent, earlier⟩
    · rw [List.forall_mem_append, List.forall_mem_singleton]
      refine ⟨balanced.stocked.audible, fun silent => ?_⟩
      exact absurd (balanced.held _ silent) (by simp [Pump.numbered, entry])
  by_cases encoded : encodes codec (pump.numbered update).frame = true
  · rw [Books.track, if_pos encoded]
    apply restocked
    intro generation from_base
    rw [owedBy_append, owedBy_cons]
    rcases eq_or_ne generation pump.generation with rfl | distinct
    · rw [Function.update_self, balanced.stocked.owed _ from_base, if_pos ⟨rfl, encoded⟩]
      rfl
    · rw [Function.update_of_ne distinct, balanced.stocked.owed _ from_base,
        if_neg (fun its => distinct its.1.symm)]
      simp [owedBy]
  · rw [Books.track, if_neg encoded]
    apply restocked
    intro generation from_base
    rw [owedBy_append, owedBy_cons, balanced.stocked.owed _ from_base,
      if_neg (fun its => encoded its.2)]
    simp [owedBy]

/-- With the funnel flushed and its entry and pump gone, a subscription may be ended. -/
theorem speak (balanced : Balanced codec s books) (id : UInt64) {generation : ℕ}
    (empty : s.funnel = []) (recent : books.base ≤ generation)
    (earlier : generation < s.nextGeneration) (unspoken : generation ∉ books.spoken)
    (audible : subKey id ∉ books.silent) (gone : s.cancels.lookup (subKey id) = none)
    (others : ∀ ticket ∈ s.tickets, ticket.2.generation ≠ generation) :
    books.Permits (.sent (some generation) (lastWord id)) ∧
      Balanced codec s (books.track codec (.sent (some generation) (lastWord id))) := by
  constructor
  · refine ⟨?_, ?_, rfl, ?_, unspoken⟩
    · rintro _ ⟨⟩
      exact recent
    · rintro _ ⟨⟩
      exact audible
    · rw [balanced.stocked.owed _ recent, empty]
      rfl
  · refine ⟨balanced.next, balanced.ordered, balanced.recent, balanced.keyed, ?_, ?_, ?_, ?_⟩
    · rintro ticket mem (same | spoken)
      · exact others ticket mem same
      · exact balanced.unspoken ticket mem spoken
    · rintro other (rfl | spoken)
      · exact balanced.next ▸ earlier
      · exact balanced.spoken_lt other spoken
    · rintro sub (rfl | silent)
      · exact gone
      · exact balanced.held sub silent
    · exact ⟨balanced.stocked.recent, balanced.stocked.owed, by simp [empty]⟩

end Balanced

/-- One step keeps the books, and they keep agreeing with the session. -/
theorem Balanced.took {books : Books} (balanced : Balanced codec s books)
    (table : Table config s) {input : Input} {after : State} {emitted : List Record}
    (took : Took codec config s input after emitted) :
    (bookkeeping codec).Accepts books emitted ∧
      (after.closed = false →
        Balanced codec after ((bookkeeping codec).remember books emitted)) := by
  cases took with
  | plain plain =>
      obtain ⟨accepts, same⟩ := books_incidental codec books
        fun record mem => (plain record mem).incidental
      rw [same]
      exact ⟨accepts, fun _ => balanced.shrink (fun _ => id) (fun _ => id) rfl rfl⟩
  | reset plain =>
      obtain ⟨accepts, same⟩ := books_incidental codec
        (books.track codec .reset) fun record mem => (plain record mem).incidental
      refine ⟨⟨trivial, accepts⟩, fun _ => ?_⟩
      rw [Monitor.remember_cons, bookkeeping_track, same]
      refine ⟨balanced.next, le_rfl, by simp [State.tickets], by simp [State.tickets],
        by simp [State.tickets], balanced.spoken_lt, by simp, by simp, ?_, by simp⟩
      intro generation recent
      -- nothing was queued by a generation that is yet to come
      have none_owed := balanced.stocked.owed generation (balanced.ordered.trans recent)
      refine none_owed.trans (List.filterMap_eq_nil_iff.mpr fun queued mem => ?_)
      have earlier := (balanced.stocked.recent queued mem).2
      exact if_neg fun its => absurd (its.1 ▸ earlier) (Nat.not_lt.mpr recent)
  | @accepted _ answer _ id _ _ _ _ _ sent =>
      have recent : books.base ≤ s.nextGeneration := balanced.next ▸ balanced.ordered
      obtain ⟨accepts, same⟩ := books_opening codec config
        (books.track codec (.accepted (subKey id) s.nextGeneration answer.snapshots.length))
        answer.snapshots recent (fun silent => silent.2 rfl)
      cases sent with
      | whole =>
          refine ⟨⟨balanced.next.symm, accepts⟩, fun _ => ?_⟩
          rw [Monitor.remember_cons, bookkeeping_track, same]
          exact balanced.register id answer.snapshots
  | @interrupted _ answer _ id _ _ _ _ _ sent =>
      have recent : books.base ≤ s.nextGeneration := balanced.next ▸ balanced.ordered
      obtain ⟨accepts, -⟩ := books_opening codec config
        (books.track codec (.accepted (subKey id) s.nextGeneration answer.snapshots.length))
        answer.snapshots recent (fun silent => silent.2 rfl)
      exact ⟨⟨balanced.next.symm, accepts_sent bookkeeping_ignores accepts sent⟩,
        fun isOpen => absurd isOpen (by simp [State.stay])⟩
  | unsubscribed =>
      exact ⟨⟨trivial, trivial⟩, fun _ =>
        balanced.shrink (fun _ => id) (lookup_erase_none _) rfl rfl⟩
  | @event _ queued rest _ _ funnel sent =>
      obtain ⟨accepts, owed, remembered, flushed⟩ := balanced.flush
        (show s.funnel = [queued] ++ rest from funnel)
      refine ⟨accepts_sent bookkeeping_ignores accepts sent, ?_⟩
      cases sent with
      | whole =>
          intro _
          change Balanced codec _ ((bookkeeping codec).remember books
            (said codec (Server.flushed [queued])))
          rw [remembered]
          exact flushed.shrink (fun _ => id) (fun _ => id) rfl rfl
      | cut => exact fun isOpen => absurd isOpen (by simp [State.stay])
  | foreign =>
      exact ⟨⟨trivial, trivial⟩, fun _ =>
        balanced.shrink (tickets_eraseIdx s _) (fun _ => id) rfl rfl⟩
  | pruned =>
      exact ⟨⟨trivial, trivial, trivial⟩, fun _ =>
        balanced.shrink (tickets_eraseIdx s _) (lookup_erase_none _) rfl rfl⟩
  | @lastWord index _ pump flush reply found _ own sent replied =>
      have mem := List.mem_of_getElem? found
      have ticket := Table.ticket_mem mem
      have entry := (table.owns_iff_running mem).mp own
      obtain ⟨id, keyed⟩ := balanced.keyed _ ticket
      have key : pump.subId = subKey id := keyed
      have closing : Balanced codec { s with
          subs := s.subs.eraseIdx index, cancels := s.cancels.erase pump.subId,
          closed := false } books :=
        balanced.shrink (tickets_eraseIdx s index) (lookup_erase_none _) rfl rfl
      obtain ⟨accepts, owed, remembered, flushed⟩ :=
        closing.flush (List.append_nil s.funnel).symm
      have quiet : reply = [] ∨ (∃ frame, reply = [.failed frame]) ∨
          reply = [.sent (some pump.generation) (lastWord id)] := by
        rcases replied with ⟨none, -⟩ | ⟨id', _, parsed, replied⟩
        · exact .inl none
        · rw [key, parseU64_subKey, Option.some.injEq] at parsed
          subst parsed
          rcases replied.single with ⟨-, sent⟩ | ⟨-, skipped⟩ | ⟨-, failed⟩
          · exact .inr (.inr sent)
          · exact .inl skipped
          · exact .inr (.inl ⟨_, failed⟩)
      cases sent with
      | whole =>
          rw [Monitor.accepts_cons, Monitor.accepts_cons, Monitor.accepts_append,
            Monitor.remember_cons, Monitor.remember_cons, Monitor.remember_append]
          change (_ ∧ _ ∧ (bookkeeping codec).Accepts books _ ∧
              (bookkeeping codec).Accepts ((bookkeeping codec).remember books _) _) ∧
            (_ → Balanced codec _ ((bookkeeping codec).remember
              ((bookkeeping codec).remember books _) _))
          rw [remembered]
          rcases quiet with rfl | ⟨frame, rfl⟩ | rfl
          · exact ⟨⟨trivial, trivial, accepts, trivial⟩, fun _ => flushed⟩
          · exact ⟨⟨trivial, trivial, accepts, trivial, trivial⟩, fun _ => flushed⟩
          · have generations : ∀ ticket ∈ (s.subs.eraseIdx index).map Pump.ticket,
                ticket.2.generation ≠ pump.generation := by
              intro other other_mem
              obtain ⟨holder, holds, rfl⟩ := List.mem_map.mp other_mem
              exact distinct_of_reaped table.pump_generations found holds
            have audible : subKey id ∉ books.silent := by
              rw [← key]
              exact fun silent => absurd ((balanced.held _ silent).symm.trans entry) (by simp)
            obtain ⟨permitted, spoken⟩ := flushed.speak id rfl (balanced.recent _ ticket)
              (table.generation_lt _ ticket) (balanced.unspoken _ ticket) audible
              (by simp [key]) generations
            exact ⟨⟨trivial, trivial, accepts, permitted, trivial⟩, fun _ => spoken⟩
  | @silenced index _ pump _ found _ _ sent =>
      obtain ⟨accepts, -⟩ := balanced.flush (List.append_nil s.funnel).symm
      exact ⟨⟨trivial, trivial, accepts_sent bookkeeping_ignores accepts sent⟩,
        fun isOpen => absurd isOpen (by simp)⟩
  | @queued index pump update found _ running =>
      obtain ⟨permitted, pushed⟩ := balanced.push table (List.mem_of_getElem? found) running
        (Table.tickets_set { pump with seq := pump.seq + (update.skipped + 1) } found rfl)
        update
      exact ⟨⟨trivial, permitted, trivial⟩, fun _ => pushed⟩
  | @overflowed _ pump update found =>
      have same := Table.tickets_set { pump with seq := pump.seq + (update.skipped + 1) } found rfl
      exact ⟨⟨trivial, trivial⟩, fun _ =>
        balanced.shrink (fun _ => same ▸ id) (fun _ => id) rfl rfl⟩
  | @finished _ pump found =>
      have same := Table.tickets_set { pump with ended := some !pump.cancelled s.cancels } found rfl
      exact ⟨trivial, fun _ => balanced.shrink (fun _ => same ▸ id) (fun _ => id) rfl rfl⟩

def registered (cancels : Cancels) (sub : String) : Option ℕ :=
  (cancels.lookup sub).map CancelHandle.generation

def hold (holds : String → Option ℕ) : Record → String → Option ℕ
  | .accepted sub generation _ => Function.update holds sub (some generation)
  | .ended sub _ => Function.update holds sub none
  | .reset => fun _ => none
  | _ => holds

/-- The subscriptions a client holds after a log: accepted, not ended since. -/
def held (log : List Record) : String → Option ℕ := log.foldl hold fun _ => none

theorem hold_quiet {records : List Record}
    (quiet : ∀ record ∈ records, ∀ holds, hold holds record = holds)
    (holds : String → Option ℕ) :
    records.foldl hold holds = holds := by
  induction records with
  | nil => rfl
  | cons record records inductionHypothesis =>
      rw [List.forall_mem_cons] at quiet
      rw [List.foldl_cons, quiet.1, inductionHypothesis quiet.2]

theorem hold_sent {frames : List (Option ℕ × Outbound)} {alive : Bool} {records : List Record}
    (sent : Sent codec frames alive records) (holds : String → Option ℕ) :
    records.foldl hold holds = holds := by
  apply hold_quiet
  intro record mem holds
  rcases sent.record record mem with ⟨_, _, rfl⟩ | ⟨_, rfl⟩
  · rfl
  · rfl

theorem hold_plain {records : List Record} (plain : ∀ record ∈ records, record.Plain)
    (holds : String → Option ℕ) : records.foldl hold holds = holds := by
  apply hold_quiet
  intro record mem holds
  have concerns := plain record mem
  unfold Record.Plain at concerns
  split at concerns
  · rfl
  · rfl
  · rfl
  · exact absurd concerns id

theorem registered_erase (cancels : Cancels) (sub : String) :
    registered (cancels.erase sub) = Function.update (registered cancels) sub none := by
  funext other
  rcases eq_or_ne other sub with rfl | distinct
  · simp [registered]
  · rw [Function.update_of_ne distinct, registered, AList.lookup_erase_ne distinct, registered]

theorem registered_insert (cancels : Cancels) (sub : String) (handle : CancelHandle) :
    registered (cancels.insert sub handle) =
      Function.update (registered cancels) sub (some handle.generation) := by
  funext other
  rcases eq_or_ne other sub with rfl | distinct
  · simp [registered]
  · rw [Function.update_of_ne distinct, registered, AList.lookup_insert_ne distinct, registered]

/-- One step changes what the client holds as it changes the entries. -/
theorem hold_took {input : Input} {after : State} {emitted : List Record}
    (took : Took codec config s input after emitted) (isOpen : after.closed = false) :
    emitted.foldl hold (registered s.cancels) = registered after.cancels := by
  cases took with
  | plain plain => exact hold_plain plain _
  | reset plain =>
      rw [List.foldl_cons, hold_plain plain]
      rfl
  | accepted _ _ _ sent =>
      rw [List.foldl_cons, hold_sent sent]
      exact (registered_insert s.cancels _ ⟨s.nextGeneration, s.channels⟩).symm
  | interrupted => simp [State.stay] at isOpen
  | unsubscribed => exact (registered_erase _ _).symm
  | event _ sent => exact hold_sent sent _
  | foreign => rfl
  | pruned => exact (registered_erase _ _).symm
  | lastWord _ _ _ sent replied =>
      rw [List.foldl_cons, List.foldl_cons, List.foldl_append, hold_sent sent]
      rcases replied with ⟨rfl, -⟩ | ⟨_, _, -, replied⟩
      · exact (registered_erase _ _).symm
      · rw [hold_sent replied]
        exact (registered_erase _ _).symm
  | silenced => simp at isOpen
  | queued => rfl
  | overflowed => rfl
  | finished => rfl

theorem held_eq_registered {allowed : State → Input → Prop} {log : List Record}
    (reached : Runs codec config allowed s log) (isOpen : s.closed = false) :
    held log = registered s.cancels := by
  refine reached.invariant (fun s log => s.closed = false → held log = registered s.cancels)
    (fun _ => rfl) ?_ isOpen
  intro state log input after emitted _ _ stepped holds isOpen
  obtain ⟨wasOpen, took⟩ := took_of_step stepped
  rw [held, List.foldl_append]
  change List.foldl hold (held log) emitted = _
  rw [holds wasOpen, hold_took took isOpen]

/-- A held subscription that runs out is ended by a reply behind the flushed queue,
unless a send fails first or the reply has no encoding. -/
def Answered (codec : EnvelopeCodec) (log : List Record) : Prop :=
  ∀ {before sub generation after}, log = before ++ .drained sub generation true :: after →
    held before sub = some generation →
    ∃ id flush tail, sub = subKey id ∧ after = .ended sub generation :: (flush ++ tail) ∧
      (∀ record ∈ flush, ∃ origin event,
        record = .sent (some origin) (SubEvent.frame event)) ∧
      (tail.head? = some (.sent (some generation) (lastWord id)) ∨
        (∃ frame, tail.head? = some (.failed frame)) ∨ encodes codec (lastWord id) = false)

theorem flushed_events {funnel : List Queued} {alive : Bool} {records : List Record}
    (sent : Sent codec (flushed funnel) alive records) :
    ∃ flush tail, records = flush ++ tail ∧
      (∀ record ∈ flush, ∃ origin event,
        record = .sent (some origin) (SubEvent.frame event)) ∧
      (alive = true → tail = []) ∧ (alive = false → ∃ frame, tail = [.failed frame]) := by
  have events : ∀ front rest, flushed funnel = front ++ rest → ∀ record ∈ said codec front,
      ∃ origin event, record = .sent (some origin) (SubEvent.frame event) := by
    intro front rest split record mem
    obtain ⟨frame, sent, rfl⟩ := List.mem_map.mp mem
    have waits : frame ∈ flushed funnel :=
      split ▸ List.mem_append_left _ (List.mem_of_mem_filter sent)
    obtain ⟨queued, -, rfl⟩ := List.mem_map.mp waits
    exact ⟨queued.origin, queued.event, rfl⟩
  cases sent with
  | whole =>
      exact ⟨said codec (flushed funnel), [], by simp, events _ [] (by simp),
        fun _ => rfl, by simp⟩
  | @cut front rest _ frame split =>
      exact ⟨said codec front, [.failed frame], rfl, events front _ split, by simp,
        fun _ => ⟨frame, rfl⟩⟩

theorem head_of_split {α : Type*} {first event : α} {tail front rest : List α}
    (split : first :: tail = front ++ event :: rest) (absent : event ∉ tail) :
    front = [] ∧ first = event ∧ tail = rest := by
  cases front with
  | nil => simpa using split
  | cons other front =>
      rw [List.cons_append, List.cons.injEq] at split
      exact absurd (split.2 ▸ List.mem_append_right _ List.mem_cons_self) absent

theorem answered_step {books : Books} (balanced : Balanced codec s books)
    {input : Input} {after : State} {emitted rest front : List Record}
    {sub : String} {generation : ℕ} (took : Took codec config s input after emitted)
    (split : emitted = front ++ .drained sub generation true :: rest) :
    front = [] ∧ (registered s.cancels sub = some generation →
      ∃ id flush tail, sub = subKey id ∧ rest = .ended sub generation :: (flush ++ tail) ∧
        (∀ record ∈ flush, ∃ origin event,
          record = .sent (some origin) (SubEvent.frame event)) ∧
        (tail.head? = some (.sent (some generation) (lastWord id)) ∨
          (∃ frame, tail.head? = some (.failed frame)) ∨
            encodes codec (lastWord id) = false)) := by
  have mem : .drained sub generation true ∈ emitted := by simp [split]
  have notSent : ∀ {frames alive records}, Sent codec frames alive records →
      .drained sub generation true ∉ records := by
    intro frames alive records sent mem
    rcases sent.record _ mem with ⟨_, _, same⟩ | ⟨_, same⟩
    · exact absurd same (by simp)
    · exact absurd same (by simp)
  have key : ∀ {index : ℕ} {pump : Pump}, s.subs[index]? = some pump →
      ∃ id, pump.subId = subKey id :=
    fun found => balanced.keyed _ (Table.ticket_mem (List.mem_of_getElem? found))
  cases took with
  | plain plain => exact absurd (plain _ mem) id
  | reset plain =>
      rcases List.mem_cons.mp mem with same | later
      · exact absurd same (by simp)
      · exact absurd (plain _ later) id
  | accepted _ _ _ sent =>
      rcases List.mem_cons.mp mem with same | later
      · exact absurd same (by simp)
      · exact absurd later (notSent sent)
  | interrupted _ _ _ sent =>
      rcases List.mem_cons.mp mem with same | later
      · exact absurd same (by simp)
      · exact absurd later (notSent sent)
  | event _ sent => exact absurd mem (notSent sent)
  | unsubscribed | pruned | queued | overflowed | finished => simp at mem
  | @foreign _ _ pump _ _ _ foreign =>
      obtain ⟨rfl, same, -⟩ := head_of_split split (by simp)
      rw [Record.drained.injEq] at same
      obtain ⟨rfl, rfl, -⟩ := same
      refine ⟨rfl, fun holds => ?_⟩
      have own : pump.owns s.cancels = true := by
        obtain ⟨handle, entry, its⟩ := Option.map_eq_some_iff.mp holds
        exact owns_iff.mpr ⟨handle, entry, its⟩
      simp [own] at foreign
  | @lastWord _ _ pump flush reply found _ own sent replied =>
      have absent : .drained sub generation true ∉
          .ended pump.subId pump.generation :: (flush ++ reply) := by
        rw [List.mem_cons, List.mem_append, not_or, not_or]
        refine ⟨by simp, notSent sent, ?_⟩
        rcases replied with ⟨rfl, -⟩ | ⟨_, _, -, replied⟩
        · simp
        · exact notSent replied
      obtain ⟨rfl, same, rfl⟩ := head_of_split split absent
      rw [Record.drained.injEq] at same
      obtain ⟨rfl, rfl, -⟩ := same
      obtain ⟨id, keyed⟩ := key found
      obtain ⟨events, tail, rfl, each, whole, -⟩ := flushed_events sent
      rw [whole rfl, List.append_nil]
      refine ⟨rfl, fun _ => ⟨id, events, reply, keyed, rfl, each, ?_⟩⟩
      rcases replied with ⟨-, unparsed⟩ | ⟨id', _, parsed, replied⟩
      · rw [keyed, parseU64_subKey] at unparsed
        exact absurd unparsed (by simp)
      · rw [keyed, parseU64_subKey, Option.some.injEq] at parsed
        subst parsed
        rcases replied.single with ⟨-, rfl⟩ | ⟨skipped, -⟩ | ⟨-, rfl⟩
        · exact .inl rfl
        · exact .inr (.inr skipped)
        · exact .inr (.inl ⟨_, rfl⟩)
  | @silenced _ _ pump flush found _ own sent =>
      have absent : .drained sub generation true ∉
          .ended pump.subId pump.generation :: flush := by
        rw [List.mem_cons, not_or]
        exact ⟨by simp, notSent sent⟩
      obtain ⟨rfl, same, rfl⟩ := head_of_split split absent
      rw [Record.drained.injEq] at same
      obtain ⟨rfl, rfl, -⟩ := same
      obtain ⟨id, keyed⟩ := key found
      obtain ⟨events, tail, rfl, each, -, cut⟩ := flushed_events sent
      obtain ⟨frame, rfl⟩ := cut rfl
      exact ⟨rfl, fun _ => ⟨id, events, _, keyed, rfl, each, .inr (.inl ⟨frame, rfl⟩)⟩⟩

theorem Answered.append {log emitted : List Record} (answered : Answered codec log)
    (new : ∀ {front sub generation rest},
      emitted = front ++ .drained sub generation true :: rest →
      held (log ++ front) sub = some generation →
      ∃ id flush tail, sub = subKey id ∧ rest = .ended sub generation :: (flush ++ tail) ∧
        (∀ record ∈ flush, ∃ origin event,
          record = .sent (some origin) (SubEvent.frame event)) ∧
        (tail.head? = some (.sent (some generation) (lastWord id)) ∨
          (∃ frame, tail.head? = some (.failed frame)) ∨ encodes codec (lastWord id) = false)) :
    Answered codec (log ++ emitted) := by
  intro before sub generation after split holds
  rcases split_append split with ⟨old, rfl, rfl⟩ | ⟨front, rfl, rfl⟩
  · obtain ⟨id, flush, tail, key, rfl, each, ends⟩ := answered rfl holds
    refine ⟨id, flush, tail ++ emitted, key, by simp, each, ?_⟩
    have kept : ∀ {record}, tail.head? = some record →
        (tail ++ emitted).head? = some record := by
      intro record first
      rw [List.head?_append, first, Option.some_or]
    rcases ends with spoken | ⟨frame, failed⟩ | mute
    · exact .inl (kept spoken)
    · exact .inr (.inl ⟨frame, kept failed⟩)
    · exact .inr (.inr mute)
  · exact new rfl holds

/-- The books of a run: its log is in order, the session agrees with it, and every
subscription that ran out was answered. -/
theorem books_of_runs {allowed : State → Input → Prop} {log : List Record}
    (reached : Runs codec config allowed s log) :
    (bookkeeping codec).Accepts {} log ∧
      (s.closed = false → Balanced codec s ((bookkeeping codec).remember {} log)) ∧
      Answered codec log := by
  refine reached.invariant (fun s log => (bookkeeping codec).Accepts {} log ∧
    (s.closed = false → Balanced codec s ((bookkeeping codec).remember {} log)) ∧
    Answered codec log) ?_ ?_
  · refine ⟨trivial, fun _ => ?_, fun split => absurd split (by simp)⟩
    exact ⟨rfl, le_rfl, by simp [State.tickets], by simp [State.tickets], by simp [State.tickets],
      by simp, by simp, by simp, fun _ _ => rfl, by simp⟩
  · intro state log input after emitted reached _ stepped kept
    obtain ⟨isOpen, took⟩ := took_of_step stepped
    obtain ⟨accepts, balanced, answered⟩ := kept
    have balanced := balanced isOpen
    obtain ⟨more, still⟩ := balanced.took (table_of_runs reached) took
    rw [Monitor.accepts_append, Monitor.remember_append]
    refine ⟨⟨accepts, more⟩, still, answered.append ?_⟩
    intro front sub generation rest split holds
    obtain ⟨rfl, answers⟩ := answered_step balanced took split
    rw [List.append_nil, held_eq_registered reached isOpen] at holds
    exact answers holds

/-- What a client can rely on when a subscription ends or a session is reset. -/
structure LastWordKept (codec : EnvelopeCodec) (log : List Record) : Prop where
  flushed : ∀ {before generation id result after},
    log = before ++ .sent (some generation) (.reply id result) :: after →
    result = .error .internal ∧ queuedFrames codec generation log = sentEvents generation before
  once : ∀ generation, log.countP (Record.isLastWord generation) ≤ 1
  answered : Answered codec log
  silent : ∀ {before generation id result quiet after},
    log = before ++ .sent (some generation) (.reply id result) :: (quiet ++ after) →
    (∀ generation snapshots, .accepted (subKey id) generation snapshots ∉ quiet) →
    ∀ record ∈ quiet, record.speaksFor ≠ some (subKey id)
  dropped : ∀ {before generation frame after}, log = before ++ .reset :: after →
    .sent (some generation) frame ∈ after →
    ∀ sub snapshots, .accepted sub generation snapshots ∉ before

theorem countP_isLastWord_le {books : Books} {log : List Record}
    (accepts : (bookkeeping codec).Accepts books log) (generation : ℕ) :
    log.countP (Record.isLastWord generation) ≤ 1 := by
  induction log generalizing books with
  | nil => simp
  | cons record log inductionHypothesis =>
      obtain ⟨permitted, accepts⟩ := Monitor.accepts_cons.mp accepts
      rw [List.countP_cons]
      by_cases speaks : record.isLastWord generation = true
      · unfold Record.isLastWord at speaks
        split at speaks
        · obtain rfl : _ = generation := by simpa using speaks
          rw [(spoken_stays accepts (Set.mem_insert _ _)).2]
          split <;> omega
        · simp at speaks
      · rw [if_neg speaks]
        exact inductionHypothesis accepts

/-- In every run, the error that ends a subscription is its last word, and a second
handshake lets nothing of the session before it through. -/
theorem lastWordKept_of_reachable {log : List Record}
    (reached : Reachable (step codec config) {} s log) : LastWordKept codec log := by
  obtain ⟨accepts, -, answered⟩ := books_of_runs reached
  refine ⟨?_, countP_isLastWord_le accepts, answered, ?_, ?_⟩
  · rintro before generation id result after rfl
    obtain ⟨befores, permitted, afters⟩ := Monitor.accepts_append.mp accepts
    have owed := owed_append_queued befores generation
    rw [permitted.2.2.2.1, List.append_nil] at owed
    have queued := (spoken_stays afters (Set.mem_insert _ _)).1
    refine ⟨permitted.2.2.1, ?_⟩
    rw [← owed, queuedFrames, List.filterMap_append, List.nil_append]
    exact (congrArg (queuedFrames codec generation before ++ ·) queued).trans (List.append_nil _)
  · rintro before generation id result quiet after rfl unopened
    obtain ⟨-, -, rest⟩ := Monitor.accepts_append.mp accepts
    exact silent_until_accepted (Monitor.accepts_append.mp rest).1 (Set.mem_insert _ _) unopened
  · rintro before generation frame after rfl mem sub snapshots opened
    obtain ⟨befores, -, rest⟩ := Monitor.accepts_append.mp accepts
    have grown := books_grow befores le_rfl
    have recent := base_le_origin rest le_rfl mem
    exact absurd (grown.2.2.2 sub generation snapshots opened) (Nat.not_lt.mpr recent)

/-- The stream of id 5 yields one update and runs out; its queue is flushed. -/
def runsOut (sends : List Bool) : List Input :=
  [subscribes, .update 0 (.new (utf8 "1") 7), .finish 0, .drained 0 sends]

theorem lastWordKept_of_runsOut :
    ∃ log, Record.sent (some 0) (lastWord 5) ∈ log ∧ LastWordKept aimx log := by
  have replayed : (replay (step aimx {}) {} (runsOut [])).map Prod.snd =
      some [.accepted "5" 0 0, .pulled 0 (.new (utf8 "1") 7),
        .queued 0 ⟨"5", 1, none, 7, utf8 "1"⟩, .drained "5" 0 true, .ended "5" 0,
        .sent (some 0) (.event "5" 1 none 7 (utf8 "1")), .sent (some 0) (lastWord 5)] := by
    decide
  obtain ⟨⟨s, log⟩, run, rfl⟩ := Option.map_eq_some_iff.mp replayed
  exact ⟨_, by simp, lastWordKept_of_reachable (reachable_of_replay run)⟩

/-- Every held subscription that runs out is ended by exactly one reply. -/
def SpokenOnce (log : List Record) : Prop :=
  ∀ {before sub generation after}, log = before ++ .drained sub generation true :: after →
    held before sub = some generation → log.countP (Record.isLastWord generation) = 1

def carriedId : Outbound → Option String
  | .event sub _ _ _ _ | .snapshot sub _ _ _ _ _ | .subscribed sub => some sub
  | .reply id _ => some (subKey id)
  | .pong => none

/-- After a terminal reply no frame at all carries the id until it is accepted again. -/
def MuteUntilAccepted (log : List Record) : Prop :=
  ∀ {before generation id result quiet after},
    log = before ++ .sent (some generation) (.reply id result) :: (quiet ++ after) →
    (∀ generation snapshots, .accepted (subKey id) generation snapshots ∉ quiet) →
    ∀ {origin frame}, .sent origin frame ∈ quiet → carriedId frame ≠ some (subKey id)

/-- A send that fails during the flush ends the session without the reply, and the
refusal of a later Subscribe carries the id without accepting it. -/
theorem last_word_lost_or_followed :
    (∃ s log, Reachable (step aimx {}) {} s log ∧ ¬ SpokenOnce log) ∧
      ∃ s log, Reachable (step aimx {}) {} s log ∧ ¬ MuteUntilAccepted log := by
  constructor
  · have replayed : (replay (step aimx {}) {} (runsOut [false])).map Prod.snd =
        some ([.accepted "5" 0 0, .pulled 0 (.new (utf8 "1") 7),
          .queued 0 ⟨"5", 1, none, 7, utf8 "1"⟩] ++ .drained "5" 0 true :: [.ended "5" 0,
          .failed (.event "5" 1 none 7 (utf8 "1"))]) := by
      decide
    obtain ⟨⟨s, log⟩, run, rfl⟩ := Option.map_eq_some_iff.mp replayed
    refine ⟨s, _, reachable_of_replay run, fun once => ?_⟩
    have one := once rfl (by decide)
    exact absurd one (by decide)
  · have replayed : (replay (step aimx {}) {} (runsOut [] ++
        [.frame (utf8 "\x7b\"t\":\"sub\",\"id\":5,\"topic\":\"b\"\x7d") {} []])).map Prod.snd =
        some ([.accepted "5" 0 0, .pulled 0 (.new (utf8 "1") 7),
          .queued 0 ⟨"5", 1, none, 7, utf8 "1"⟩, .drained "5" 0 true, .ended "5" 0,
          .sent (some 0) (.event "5" 1 none 7 (utf8 "1"))] ++
          .sent (some 0) (.reply 5 (.error .internal)) ::
            ([.sent none (.reply 5 (.error .notFound))] ++ [])) := by
      decide +kernel
    obtain ⟨⟨s, log⟩, run, rfl⟩ := Option.map_eq_some_iff.mp replayed
    refine ⟨s, _, reachable_of_replay run, fun mute => ?_⟩
    have different := mute rfl (by simp) List.mem_cons_self
    exact different rfl

end AimDb.Session.Server
