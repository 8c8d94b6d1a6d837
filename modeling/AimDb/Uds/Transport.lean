import AimDb.Framing.Delimited
import AimDb.Json.Text
import AimDb.Transition.Runs
import Mathlib.Data.List.DropRight

/-!
# The Unix-socket transport: one line, one frame

A receive future reads until a newline into `pending`, which outlives the
future.  The environment decides how many bytes each read of the socket hands
over and where a future is dropped.
-/

namespace AimDb.Uds

open AimDb.Framing AimDb.Transition
open AimDb.Json (Bytes)

def newline : UInt8 := '\n'.toUInt8
def carriageReturn : UInt8 := '\r'.toUInt8

/-- The receiving half of a connection whose peer closes after `unread`. -/
structure UdsConnection where
  unread : Bytes
  buffer : Bytes
  /-- Partial line, kept here so it survives a dropped `recv` future. -/
  pending : Bytes
  /-- The `recv` future in flight, with the bytes it has read. -/
  reading : Option ℕ
  deriving DecidableEq

inductive Received where
  | frame (line : Bytes)
  | endOfStream
  deriving DecidableEq

inductive Input where
  /-- A new `recv` future. -/
  | recv
  /-- One read of the future in flight; `size` bytes come if the socket is asked. -/
  | poll (size : ℕ)
  | drop

def send (written frame : Bytes) : Bytes := written ++ frame ++ [newline]

/-- Drop every newline and carriage return at the end. -/
def stripLine (line : Bytes) : Bytes :=
  line.rdropWhile fun b => b = newline ∨ b = carriageReturn

namespace UdsConnection

def new (unread : Bytes) : UdsConnection := ⟨unread, [], [], none⟩

/-- `read_until` has returned. -/
def finish (conn : UdsConnection) : UdsConnection × List Received :=
  if conn.pending = [] then ({ conn with reading := none }, [.endOfStream])
  else ({ conn with pending := [], reading := none }, [.frame (stripLine conn.pending)])

/-- One turn of the loop of `read_until`, with the bytes available to it. -/
def readUntil (conn : UdsConnection) (count : ℕ) (available : Bytes) :
    UdsConnection × List Received :=
  match cut newline available with
  | some (before, after) =>
      finish { conn with buffer := after, pending := conn.pending ++ (before ++ [newline]) }
  | none =>
      let conn := { conn with buffer := [], pending := conn.pending ++ available }
      if available = [] then conn.finish
      else ({ conn with reading := some (count + available.length) }, [])

def step (conn : UdsConnection) : Input → Option (UdsConnection × List Received)
  | .recv =>
      match conn.reading with
      | none => some ({ conn with reading := some 0 }, [])
      | some _ => none
  | .drop =>
      match conn.reading with
      | none => none
      | some _ => some ({ conn with reading := none }, [])
  | .poll size =>
      match conn.reading with
      | none => none
      | some count =>
          if conn.buffer ≠ [] then some (conn.readUntil count conn.buffer)
          else if conn.unread = [] then some (conn.readUntil count [])
          else if size = 0 ∨ conn.unread.length < size then none
          else
            some ({ conn with unread := conn.unread.drop size }.readUntil count
              (conn.unread.take size))

/-- What no `recv` has returned yet. -/
def rest (conn : UdsConnection) : Bytes := conn.pending ++ conn.buffer ++ conn.unread

/-- Bytes no read has taken over yet. -/
def ahead (conn : UdsConnection) : ℕ := conn.buffer.length + conn.unread.length

/-- A stream as `recv` returns it. -/
def linesOf (stream : Bytes) : List Bytes := (splitInclusive newline stream).map stripLine

/-- What a read does to the stream: it takes bytes over without ending the line,
it ends a line, or it finds the end of the stream. -/
inductive Took (conn after : UdsConnection) : List Received → Prop
  | partly : newline ∉ after.pending → after.rest = conn.rest → after.ahead < conn.ahead →
      Took conn after []
  | line {line} : newline ∉ line → conn.rest = line ++ newline :: after.rest →
      after.pending = [] → after.ahead < conn.ahead →
      Took conn after [.frame (stripLine (line ++ [newline]))]
  | unfinished : conn.pending ≠ [] → conn.ahead = 0 → after.rest = [] → after.ahead = 0 →
      Took conn after [.frame (stripLine conn.pending)]
  | ended : conn.rest = [] → after.rest = [] → after.ahead = 0 →
    Took conn after [.endOfStream]

theorem took_readUntil {conn : UdsConnection} (count : ℕ) (available unread : Bytes)
    (free : newline ∉ conn.pending) (split : conn.buffer ++ conn.unread = available ++ unread)
    (exhausted : available = [] → unread = []) :
    let read := { conn with unread := unread }.readUntil count available
    Took conn read.1 read.2 := by
  have ahead : conn.ahead = available.length + unread.length := by
    rw [ahead, ← List.length_append, split, List.length_append]
  have rest : conn.rest = conn.pending ++ available ++ unread := by
    rw [rest, List.append_assoc, split, List.append_assoc]
  intro read
  simp only [read, readUntil]
  cases found : cut newline available with
  | some pieces =>
      obtain ⟨before, after⟩ := pieces
      obtain ⟨rfl, freeBefore⟩ := cut_eq_some_iff.mp found
      have ended := @Took.line conn ⟨unread, after, [], none⟩ (conn.pending ++ before)
        (by simp [free, freeBefore]) (by rw [rest]; simp [UdsConnection.rest]) rfl
        (by rw [ahead]; simp [UdsConnection.ahead]; omega)
      simpa [finish] using ended
  | none =>
      by_cases empty : available = []
      · subst empty
        rw [exhausted rfl] at ahead rest ⊢
        by_cases nothing : conn.pending = []
        · simp only [finish, nothing, List.append_nil, if_true]
          exact .ended (by rw [rest, nothing]; rfl) rfl rfl
        · simp only [finish, nothing, List.append_nil, if_true, if_false]
          exact .unfinished nothing ahead rfl rfl
      · simp only [if_neg empty]
        refine .partly ?_ ?_ ?_
        · simp [free, cut_eq_none_iff.mp found]
        · rw [rest]
          simp [UdsConnection.rest]
        · rw [ahead]
          have := List.length_pos_of_ne_nil empty
          simp [UdsConnection.ahead]
          omega

theorem took_of_poll {conn after : UdsConnection} {size : ℕ} {emitted : List Received}
    (free : newline ∉ conn.pending) (stepped : step conn (.poll size) = some (after, emitted)) :
    Took conn after emitted := by
  rw [step] at stepped
  split at stepped
  · exact nomatch stepped
  rename_i count _
  split_ifs at stepped with buffered drained _
  · have read := took_readUntil count conn.buffer conn.unread free rfl
      (fun empty => absurd empty buffered)
    rwa [Option.some.inj stepped] at read
  · simp only [ne_eq, not_not] at buffered
    have read := took_readUntil count [] conn.unread
      free (by rw [buffered]) (fun _ => drained)
    rwa [Option.some.inj stepped] at read
  · simp only [ne_eq, not_not] at buffered
    have read := took_readUntil count (conn.unread.take size) (conn.unread.drop size) free
      (by rw [buffered, List.take_append_drop]; rfl)
      (fun empty => by simp [drained] at empty; omega)
    rwa [Option.some.inj stepped] at read

theorem step_cases {conn after : UdsConnection} {input : Input} {emitted : List Received}
    (free : newline ∉ conn.pending) (stepped : step conn input = some (after, emitted)) :
    (∃ reading, after = { conn with reading := reading } ∧ emitted = []) ∨
      Took conn after emitted := by
  cases input with
  | recv =>
      rw [step] at stepped
      split at stepped
      · obtain ⟨rfl, rfl⟩ := Prod.mk.inj (Option.some.inj stepped)
        exact .inl ⟨_, rfl, rfl⟩
      · exact nomatch stepped
  | drop =>
      rw [step] at stepped
      split at stepped
      · exact nomatch stepped
      · obtain ⟨rfl, rfl⟩ := Prod.mk.inj (Option.some.inj stepped)
        exact .inl ⟨_, rfl, rfl⟩
  | poll size => exact .inr (took_of_poll free stepped)

theorem poll_enabled {conn : UdsConnection} (inFlight : conn.reading.isSome) :
    ∃ after emitted, step conn (.poll 1) = some (after, emitted) := by
  obtain ⟨count, reading⟩ := Option.isSome_iff_exists.mp inFlight
  simp only [step, reading]
  split_ifs with buffered drained tooMany
  · exact ⟨_, _, rfl⟩
  · exact ⟨_, _, rfl⟩
  · simp [drained] at tooMany
  · exact ⟨_, _, rfl⟩

/-- Frames returned and bytes not yet returned make up the stream. -/
structure Conserves (stream : Bytes) (conn : UdsConnection) (log : List Received) : Prop where
  free : newline ∉ conn.pending
  account : ∃ frames ends, log = frames.map .frame ++ List.replicate ends .endOfStream ∧
    linesOf stream = frames ++ linesOf conn.rest ∧ (ends ≠ 0 → conn.rest = [])

theorem linesOf_nil : linesOf [] = [] := by simp [linesOf]

theorem linesOf_line {line : Bytes} (free : newline ∉ line) (stream : Bytes) :
    linesOf (line ++ newline :: stream) = stripLine (line ++ [newline]) :: linesOf stream := by
  simp [linesOf, splitInclusive_cut free]

theorem Conserves.took {stream : Bytes} {conn after : UdsConnection} {log emitted : List Received}
    (conserves : Conserves stream conn log) (took : Took conn after emitted) :
    Conserves stream after (log ++ emitted) := by
  obtain ⟨free, frames, ends, rfl, account, ended⟩ := conserves
  cases took with
  | partly stillFree same _ =>
      refine ⟨stillFree, frames, ends, by simp, by rw [same]; exact account, ?_⟩
      rw [same]
      exact ended
  | @line line lineFree split emptied _ =>
      have none_ended : ends = 0 := by
        by_contra some_ended
        rw [ended some_ended] at split
        simp at split
      subst none_ended
      refine ⟨by simp [emptied], frames ++ [stripLine (line ++ [newline])], 0, by simp, ?_,
        by simp⟩
      rw [account, split, linesOf_line lineFree]
      simp
  | unfinished nonempty nothing_ahead nothingLeft _ =>
      have all : conn.rest = conn.pending := by
        rw [ahead, Nat.add_eq_zero_iff, List.length_eq_zero_iff, List.length_eq_zero_iff]
          at nothing_ahead
        rw [rest, nothing_ahead.1, nothing_ahead.2, List.append_nil, List.append_nil]
      have none_ended : ends = 0 := by
        by_contra some_ended
        exact nonempty (all ▸ ended some_ended)
      subst none_ended
      have emptied : after.pending = [] := by
        rw [rest, List.append_eq_nil_iff, List.append_eq_nil_iff] at nothingLeft
        exact nothingLeft.1.1
      refine ⟨by simp [emptied], frames ++ [stripLine conn.pending], 0, by simp, ?_, by simp⟩
      rw [account, all, nothingLeft, linesOf_nil, linesOf, splitInclusive_free free nonempty]
      simp
  | ended finished nothingLeft _ =>
      have emptied : after.pending = [] := by
        rw [rest, List.append_eq_nil_iff, List.append_eq_nil_iff] at nothingLeft
        exact nothingLeft.1.1
      refine ⟨by simp [emptied], frames, ends + 1, ?_, ?_, fun _ => nothingLeft⟩
      · simp [List.replicate_succ']
      · rw [account, finished, nothingLeft]

theorem conserves_of_reachable {stream : Bytes} {conn : UdsConnection} {log : List Received}
    (reached : Reachable step (new stream) conn log) : Conserves stream conn log := by
  refine reached.invariant (Conserves stream) ?_ ?_
  · exact ⟨by simp [new], [], 0, rfl, rfl, fun absurdity => absurd rfl absurdity⟩
  · intro conn log input after emitted _ _ stepped conserves
    rcases step_cases conserves.free stepped with ⟨reading, rfl, rfl⟩ | took
    · rw [List.append_nil]
      exact ⟨conserves.free, conserves.account⟩
    · exact conserves.took took

theorem exists_ended {stream : Bytes} {conn : UdsConnection} {log : List Received}
    (reached : Reachable step (new stream) conn log) :
    ∃ last more, Reachable step (new stream) last more ∧ .endOfStream ∈ more := by
  induction work : 2 * conn.ahead + (if conn.pending = [] then 0 else 1)
    using Nat.strong_induction_on generalizing conn log with
  | _ work inductionHypothesis =>
      obtain ⟨current, same, reading, reached⟩ : ∃ current : UdsConnection,
          current = { conn with reading := current.reading } ∧ current.reading.isSome ∧
            Reachable step (new stream) current log := by
        cases inFlight : conn.reading with
        | some count => exact ⟨conn, rfl, by simp [inFlight], reached⟩
        | none =>
            refine ⟨{ conn with reading := some 0 }, rfl, rfl, ?_⟩
            have calling : step conn .recv = some ({ conn with reading := some 0 }, []) := by
              rw [step, inFlight]
            have called := reached.next trivial calling
            simpa using called
      have aheadSame : current.ahead = conn.ahead := by rw [same]; rfl
      have pendingSame : current.pending = conn.pending := by rw [same]
      obtain ⟨after, emitted, polled⟩ := poll_enabled reading
      have next := reached.next trivial polled
      have again := fun less => inductionHypothesis
        (2 * after.ahead + if after.pending = [] then 0 else 1) less next rfl
      cases took_of_poll (conserves_of_reachable reached).free polled with
      | partly _ _ fewer => exact again (by split_ifs <;> omega)
      | line _ _ emptied fewer => exact again (by rw [if_pos emptied]; omega)
      | unfinished nonempty _ nothingLeft none_ahead =>
          have emptied : after.pending = [] := by
            rw [rest, List.append_eq_nil_iff, List.append_eq_nil_iff] at nothingLeft
            exact nothingLeft.1.1
          rw [pendingSame] at nonempty
          exact again (by rw [if_pos emptied, none_ahead, ← work, if_neg nonempty]; omega)
      | ended => exact ⟨after, _, next, by simp⟩

/-- `recv` gives back `frames` and then the end of the stream, however the reads
are cut and wherever a future is dropped. -/
structure ReadsBack (stream : Bytes) (frames : List Bytes) : Prop where
  inOrder : ∀ conn log, Reachable step (new stream) conn log →
    ∃ ends, log <+: frames.map .frame ++ List.replicate ends .endOfStream
  complete : ∀ conn log, Reachable step (new stream) conn log → .endOfStream ∈ log →
    ∃ ends, log = frames.map .frame ++ List.replicate ends .endOfStream
  /-- A future in flight can be polled, and a poll takes bytes or returns. -/
  advances : ∀ conn log, Reachable step (new stream) conn log → conn.reading.isSome →
    (∃ size after emitted, step conn (.poll size) = some (after, emitted)) ∧
      ∀ size after emitted, step conn (.poll size) = some (after, emitted) →
        after.ahead < conn.ahead ∨ emitted ≠ []

theorem readsBack_linesOf (stream : Bytes) : ReadsBack stream (linesOf stream) := by
  constructor
  · intro conn log reached
    obtain ⟨frames, ends, rfl, account, nothingLeft⟩ := (conserves_of_reachable reached).account
    refine ⟨ends, ?_⟩
    rcases Nat.eq_zero_or_pos ends with rfl | positive
    · simp [account]
    · rw [account, nothingLeft positive.ne', linesOf_nil, List.append_nil]
  · intro conn log reached ended
    obtain ⟨frames, ends, rfl, account, nothingLeft⟩ := (conserves_of_reachable reached).account
    have some_ended : ends ≠ 0 := by
      rintro rfl
      simp at ended
    exact ⟨ends, by rw [account, nothingLeft some_ended, linesOf_nil, List.append_nil]⟩
  · intro conn log reached inFlight
    refine ⟨⟨1, poll_enabled inFlight⟩, fun size after emitted polled => ?_⟩
    cases took_of_poll (conserves_of_reachable reached).free polled with
    | partly _ _ fewer => exact .inl fewer
    | line _ _ _ fewer => exact .inl fewer
    | unfinished => exact .inr (by simp)
    | ended => exact .inr (by simp)

theorem map_frame_injective {lines frames : List Bytes} {ends others : ℕ}
    (same : lines.map Received.frame ++ List.replicate ends .endOfStream =
      frames.map .frame ++ List.replicate others .endOfStream) : lines = frames := by
  have kept := congrArg (List.filterMap fun received : Received =>
    match received with
    | .frame line => some line
    | .endOfStream => none) same
  simpa [List.filterMap_append, List.filterMap_map, Function.comp_def,
    List.filterMap_replicate_of_none] using kept

theorem readsBack_iff {stream : Bytes} {frames : List Bytes} :
    ReadsBack stream frames ↔ linesOf stream = frames := by
  constructor
  · intro readsBack
    obtain ⟨conn, log, reached, ended⟩ :=
      exists_ended (.start : Reachable step (new stream) (new stream) [])
    obtain ⟨ends, whole⟩ := readsBack.complete conn log reached ended
    obtain ⟨others, lines⟩ := (readsBack_linesOf stream).complete conn log reached ended
    exact map_frame_injective (lines.symm.trans whole)
  · rintro rfl
    exact readsBack_linesOf stream

def wire (frames : List Bytes) : Bytes := frames.foldl send []

theorem wire_cons (frame : Bytes) (frames : List Bytes) :
    wire (frame :: frames) = frame ++ newline :: wire frames := by
  have later : ∀ written, frames.foldl send written = written ++ wire frames := by
    induction frames with
    | nil => simp [wire]
    | cons next frames inductionHypothesis =>
        intro written
        rw [wire, List.foldl_cons, List.foldl_cons, inductionHypothesis, inductionHypothesis]
        simp [send]
  rw [wire, List.foldl_cons, later]
  simp [send]

/-- The last byte of a frame is one that stripping a line leaves alone. -/
def KeepsEnd (frame : Bytes) : Prop :=
  ∃ front last, frame = front ++ [last] ∧ last ≠ newline ∧ last ≠ carriageReturn

theorem stripLine_frame {frame : Bytes} (keeps : KeepsEnd frame) :
    stripLine (frame ++ [newline]) = frame := by
  obtain ⟨front, last, rfl, notNewline, notReturn⟩ := keeps
  rw [stripLine, List.rdropWhile_concat_pos _ _ _ (by simp),
    List.rdropWhile_concat_neg _ _ _ (by simp [notNewline, notReturn])]

theorem length_le_count (frames : List Bytes) :
    frames.length + (frames.flatMap fun frame => frame.filter (· = newline)).length =
      (wire frames).count newline := by
  induction frames with
  | nil => rfl
  | cons frame frames inductionHypothesis =>
      rw [wire_cons, List.count_append, List.count_cons_self, ← inductionHypothesis,
        List.flatMap_cons, List.length_append, List.length_cons, List.count_eq_length_filter]
      simp only [beq_eq_decide]
      omega

theorem readsBack_wire_iff {frames : List Bytes} (keeps : ∀ frame ∈ frames, KeepsEnd frame) :
    ReadsBack (wire frames) frames ↔ ∀ frame ∈ frames, newline ∉ frame := by
  rw [readsBack_iff]
  constructor
  · intro lines frame inside breaks
    have few := @count_le_length_splitInclusive UInt8 _ newline (wire frames)
    have pieces := congrArg List.length lines
    rw [linesOf, List.length_map] at pieces
    rw [pieces, ← length_le_count] at few
    have none_left : (frames.flatMap fun frame => frame.filter (· = newline)) = [] :=
      List.eq_nil_of_length_eq_zero (by omega)
    have empty := List.flatMap_eq_nil_iff.mp none_left frame inside
    exact absurd (List.filter_eq_nil_iff.mp empty newline breaks) (by simp)
  · intro free
    induction frames with
    | nil => exact linesOf_nil
    | cons frame frames inductionHypothesis =>
        rw [List.forall_mem_cons] at keeps free
        rw [wire_cons, linesOf_line free.1, stripLine_frame keeps.1,
          inductionHypothesis keeps.2 free.2]

end UdsConnection

end AimDb.Uds
