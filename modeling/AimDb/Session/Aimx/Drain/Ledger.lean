import AimDb.Session.Aimx.Drain

/-!
# What a cursor has passed

Every push since the cursor was opened was read, overwritten, or is still unread; what was read
and encodes was handed out, in order.
-/

namespace AimDb.Session.Aimx.Drain

variable {V J : Type}

def hears (name : String) (heard : Option (List (Stamped V))) :
    Event V J → Option (List (Stamped V))
  | .opened other => if other = name then some [] else heard
  | .pushed other sample => if other = name then heard.map (· ++ [sample]) else heard
  | _ => heard

/-- The pushes since the cursor was opened. -/
def heard (name : String) (log : List (Event V J)) : Option (List (Stamped V)) :=
  log.foldl (hears name) none

def Event.received? (name : String) : Event V J → List (Stamped V)
  | .received other sample => if other = name then [sample] else []
  | _ => []

def Event.overwrote? (name : String) : Event V J → List (Stamped V)
  | .overwrote other samples => if other = name then samples else []
  | _ => []

def Event.consumed? (name : String) : Event V J → List (Stamped J)
  | .drained other _ values _ => if other = name then values else []
  | .got other values _ => if other = name then values else []
  | _ => []

def skips (name : String) (skipped : List (Stamped V)) : Event V J → List (Stamped V)
  | .received other _ => if other = name then [] else skipped
  | .overwrote other samples => if other = name then skipped ++ samples else skipped
  | _ => skipped

/-- What was overwritten behind the last value that the cursor read. -/
def skipped (name : String) (log : List (Event V J)) : List (Stamped V) :=
  log.foldl (skips name) []

def reads (read : List (Stamped V)) : Event V J → List (Stamped V)
  | .began _ => []
  | .received _ sample => read ++ [sample]
  | _ => read

/-- What was read since the last call began. -/
def reading (log : List (Event V J)) : List (Stamped V) := log.foldl reads []

variable {name : String} {log events : List (Event V J)}

theorem heard_append (name : String) (log events : List (Event V J)) :
    heard name (log ++ events) = events.foldl (hears name) (heard name log) := List.foldl_append

theorem skipped_append (name : String) (log events : List (Event V J)) :
    skipped name (log ++ events) = events.foldl (skips name) (skipped name log) :=
  List.foldl_append

theorem reading_append (log events : List (Event V J)) :
    reading (log ++ events) = events.foldl reads (reading log) := List.foldl_append

/-- Nothing has passed a cursor. -/
structure Silent (name : String) (events : List (Event V J)) : Prop where
  received : events.flatMap (Event.received? name) = []
  overwrote : events.flatMap (Event.overwrote? name) = []
  consumed : events.flatMap (Event.consumed? name) = []
  skipped : ∀ before, events.foldl (skips name) before = before

/-- Events that say nothing of a cursor. -/
structure Foreign (name : String) (events : List (Event V J)) :
    Prop extends Silent name events where
  heard : ∀ before, events.foldl (hears name) before = before

theorem Silent.append (silent : Silent name log) (more : Silent name events) :
    Silent name (log ++ events) where
  received := by rw [List.flatMap_append, silent.received, more.received, List.append_nil]
  overwrote := by rw [List.flatMap_append, silent.overwrote, more.overwrote, List.append_nil]
  consumed := by rw [List.flatMap_append, silent.consumed, more.consumed, List.append_nil]
  skipped before := by rw [List.foldl_append, silent.skipped, more.skipped]

/-- The account of a cursor, with the values the call in progress has in hand. -/
structure Ledger (encode : V → Option J) (name : String) (reader : Reader V)
    (log : List (Event V J)) (inHand : List (Stamped J)) : Prop where
  fates : ∃ fates : List (Bool × Stamped V),
    heard name log = some (fates.map Prod.snd ++ reader.unread) ∧
      (fates.filter (·.1)).map Prod.snd = log.flatMap (Event.received? name) ∧
      (fates.filter (!·.1)).map Prod.snd = log.flatMap (Event.overwrote? name)
  /-- Behind the last value read come those overwritten since, then the unread. -/
  position : ∃ earlier, heard name log = some (earlier ++ (skipped name log ++ reader.unread)) ∧
    earlier.getLast? = (log.flatMap (Event.received? name)).getLast?
  newest : skipped name log ≠ [] → reader.unread ≠ []
  delivered : log.flatMap (Event.consumed? name) ++ inHand =
    (log.flatMap (Event.received? name)).filterMap (encodeSample encode)

variable {encode : V → Option J} {reader : Reader V} {inHand : List (Stamped J)}

theorem Ledger.foreign (ledger : Ledger encode name reader log inHand)
    (foreign : Foreign name events) : Ledger encode name reader (log ++ events) inHand := by
  have received : (log ++ events).flatMap (Event.received? name) =
      log.flatMap (Event.received? name) := by
    rw [List.flatMap_append, foreign.received, List.append_nil]
  have behind : skipped name (log ++ events) = skipped name log := by
    rw [skipped_append, foreign.skipped]
  obtain ⟨fates, position, newest, delivered⟩ := ledger
  refine ⟨?_, ?_, ?_, ?_⟩
  · rw [heard_append, foreign.heard, received, List.flatMap_append, foreign.overwrote,
      List.append_nil]
    exact fates
  · rw [heard_append, foreign.heard, received, behind]
    exact position
  · rw [behind]
    exact newest
  · rw [received, List.flatMap_append, foreign.consumed, List.append_nil]
    exact delivered

theorem Ledger.opened (encode : V → Option J) (quiet : Silent name log) :
    Ledger encode name {} (log ++ [.opened name, .began name]) [] := by
  have behind : skipped name (log ++ [.opened name, .began name]) = [] := by
    rw [skipped_append]
    exact quiet.skipped []
  refine ⟨⟨[], ?_, ?_, ?_⟩, ⟨[], ?_, ?_⟩, fun skips => absurd behind skips, ?_⟩
  · simp [heard_append, hears]
  · simp [quiet.received, Event.received?]
  · simp [quiet.overwrote, Event.overwrote?]
  · simp [behind, heard_append, hears]
  · simp [quiet.received, Event.received?]
  · simp [quiet.received, quiet.consumed, Event.received?, Event.consumed?]

theorem read_overwritten (gone : List (Stamped V)) :
    (gone.map (Prod.mk false)).filter (·.1) = [] := by
  simp [List.filter_eq_nil_iff]

theorem lost_overwritten (gone : List (Stamped V)) :
    ((gone.map (Prod.mk false)).filter (!·.1)).map Prod.snd = gone := by
  have all : (gone.map (Prod.mk false)).filter (!·.1) = gone.map (Prod.mk false) :=
    List.filter_eq_self.mpr (by simp)
  rw [all, List.map_map]
  exact List.map_id gone

theorem Ledger.push (ledger : Ledger encode name reader log inHand) (sample : Stamped V)
    (overwritten : ℕ) :
    Ledger encode name (reader.push sample overwritten)
      (log ++ [.overwrote name (reader.unread.take overwritten), .pushed name sample]) inHand := by
  obtain ⟨⟨fates, pushes, read, lost⟩, ⟨earlier, position, last⟩, -, delivered⟩ :=
    ledger
  unfold Reader.push
  have split := List.take_append_drop overwritten reader.unread
  generalize reader.unread.take overwritten = gone at split ⊢
  generalize reader.unread.drop overwritten = left at split ⊢
  rw [← split] at pushes position
  refine ⟨⟨fates ++ gone.map (Prod.mk false), ?_, ?_, ?_⟩, ⟨earlier, ?_, ?_⟩,
    fun _ => ?_, ?_⟩
  · simp [heard_append, hears, pushes, Function.comp_def]
  · simp [Event.received?, read, read_overwritten]
  · simp [Event.overwrote?, lost, lost_overwritten]
  · simp [heard_append, hears, position, skipped_append, skips]
  · simpa [Event.received?] using last
  · simp
  · simpa [Event.received?, Event.consumed?] using delivered

theorem Ledger.lagged (ledger : Ledger encode name reader log inHand) :
    Ledger encode name { reader with missed := 0 } log inHand :=
  ⟨ledger.fates, ledger.position, ledger.newest, ledger.delivered⟩

theorem Ledger.read (ledger : Ledger encode name reader log inHand) {sample : Stamped V}
    {rest : List (Stamped V)} (next : reader.unread = sample :: rest) :
    Ledger encode name { reader with unread := rest } (log ++ [.received name sample])
      (inHand ++ (encodeSample encode sample).toList) := by
  obtain ⟨⟨fates, pushes, read, lost⟩, ⟨earlier, position, -⟩, -, delivered⟩ := ledger
  have unskipped : skipped name (log ++ [.received name sample]) = [] := by
    simp [skipped_append, skips]
  rw [next] at pushes position
  refine ⟨⟨fates ++ [(true, sample)], ?_, ?_, ?_⟩,
    ⟨earlier ++ (skipped name log ++ [sample]), ?_, ?_⟩,
    fun skips => absurd unskipped skips, ?_⟩
  · simp [heard_append, hears, pushes]
  · simp [Event.received?, read]
  · simp [Event.overwrote?, lost]
  · rw [unskipped]
    simp [heard_append, hears, position]
  · simp [Event.received?]
  · have encoded : [sample].filterMap (encodeSample encode) =
        (encodeSample encode sample).toList := by
      cases found : encodeSample encode sample <;> simp [found]
    rw [List.flatMap_append, List.flatMap_append, List.filterMap_append, ← delivered]
    simp [Event.received?, Event.consumed?, ← encoded]

theorem Ledger.answered (ledger : Ledger encode name reader log inHand) {event : Event V J}
    (hand : event.consumed? name = inHand) (unheard : ∀ before, hears name before event = before)
    (unskipped : ∀ before, skips name before event = before) (unread : event.received? name = [])
    (kept : event.overwrote? name = []) :
    Ledger encode name reader (log ++ [event]) [] := by
  obtain ⟨fates, position, newest, delivered⟩ := ledger
  have behind : skipped name (log ++ [event]) = skipped name log := by
    rw [skipped_append, List.foldl_cons, unskipped, List.foldl_nil]
  refine ⟨?_, ?_, ?_, ?_⟩
  · simpa [heard_append, unheard, unread, kept] using fates
  · rw [behind]
    simpa [heard_append, unheard, unread] using position
  · rw [behind]
    exact newest
  · simpa [unread, hand] using delivered

end AimDb.Session.Aimx.Drain
