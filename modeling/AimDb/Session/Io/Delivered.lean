import AimDb.Session.Io
import AimDb.Transition.Monitor

/-!
# What a link delivers

The bytes that were read, those under way and those a send has still to write are
the wire bytes of the frames accepted.  What a receiver makes of the bytes it has
read is a matter of its framer alone.
-/

namespace AimDb.Session.Io

open AimDb.Json (Bytes)
open AimDb.Tcp (FrameFault)
open AimDb.Transition

variable {σ : Type*} {framer : Framer σ} {sender receiver : σ} {fits : Bytes → Prop}
  {sizes : ChunkSizes}

structure Writes (framer : Framer σ) (sender : σ) (fits : Bytes → Prop) where
  wire : Bytes → Bytes
  Carried : Bytes → Prop
  encodes : ∀ frame, fits frame →
    Carried frame ∧ framer.encode sender frame [] = (.ok (), wire frame) ∨
      ∃ fault, framer.encode sender frame [] = (.error fault, [])

/-- What is known of a receiving framer, given the bytes it has read, what it has
handed out and whether it waits for more. -/
structure Reads (framer : Framer σ) (receiver : σ) where
  Seen : σ → Bytes → List (Except FrameFault Bytes) → Bool → Prop
  starts : Seen receiver [] [] false
  pushes : ∀ {state got results waiting} bytes, Seen state got results waiting →
    Seen (framer.pushBytes state bytes) (got ++ bytes) results false
  waits : ∀ {state got results after}, Seen state got results false →
    framer.pull state = (none, after) → Seen after got results true
  hands : ∀ {state got results result after}, Seen state got results false →
    framer.pull state = (some result, after) → Seen after got (results ++ [result]) false
  stops : ∀ {state got results}, Seen state got results true → Seen state got results false

def Offers (fits : Bytes → Prop) (_ : FramedLink σ) : Input → Prop
  | .send frame => fits frame
  | _ => True

instance [DecidablePred fits] (link : FramedLink σ) : DecidablePred (Offers fits link)
  | .send frame => inferInstanceAs (Decidable (fits frame))
  | .write | .flush | .sever _ | .sendError | .close | .recv | .read _ | .readEnd | .readError
  | .drop => isTrue trivial

section Logs

variable {log more : List Event}

@[simp] theorem acceptedIn_append : acceptedIn (log ++ more) = acceptedIn log ++ acceptedIn more :=
  List.filterMap_append

@[simp] theorem sentIn_append : sentIn (log ++ more) = sentIn log ++ sentIn more :=
  List.filterMap_append

@[simp] theorem returnedIn_append : returnedIn (log ++ more) = returnedIn log ++ returnedIn more :=
  List.filterMap_append

@[simp] theorem readIn_append : readIn (log ++ more) = readIn log ++ readIn more :=
  List.flatMap_append

theorem returned_quiet (result : Option (Except FrameFault Bytes)) :
    let returned := result.toList.map Event.returned
    acceptedIn returned = [] ∧ sentIn returned = [] ∧ readIn returned = [] ∧
      .severed ∉ returned ∧ .ended ∉ returned := by
  cases result <;> simp [acceptedIn, sentIn, readIn]

end Logs

variable {link after : FramedLink σ} {log emitted : List Event} {missing : Bytes}
    {unsent : List Bytes}

/-- Where the bytes of a stream stand.  `missing` is not under way yet, or never
will be; `unsent` is the accepted frame, if any, whose send has not returned. -/
structure Written (writes : Writes framer sender fits) (joined : Bytes) (link : FramedLink σ)
    (log : List Event) (missing : Bytes) (unsent : List Bytes) : Prop where
  sender : link.sender = sender
  carried : ∀ frame ∈ acceptedIn log, writes.Carried frame
  bytes : readIn log ++ link.wire ++ missing = joined ++ (acceptedIn log).flatMap writes.wire
  broken : link.severed = true → .severed ∈ log
  intact : link.severed = false → .severed ∉ log ∧ acceptedIn log = sentIn log ++ unsent ∧
    unsent.length ≤ 1 ∧ missing <:+ unsent.flatMap writes.wire
  sending : ∀ sending ∈ link.sending, link.severed = false →
    unsent = [sending.frame] ∧ missing = sending.left
  idle : link.sending = none → link.severed = false → link.closed = false → unsent = []

variable {writes : Writes framer sender fits} {wire : Bytes}

theorem written_joined : Written writes wire (.joined sender wire receiver) [] [] [] where
  sender := rfl
  carried := by simp [acceptedIn]
  bytes := by simp [readIn, acceptedIn, FramedLink.joined]
  broken := by simp [FramedLink.joined]
  intact := by simp [acceptedIn, sentIn]
  sending := by simp [FramedLink.joined]
  idle := by simp

namespace Written

theorem elsewhere (written : Written writes wire link log missing unsent) (more : List Event)
    (accepts : acceptedIn more = []) (sends : sentIn more = []) (reads : readIn more = [])
    (whole : .severed ∉ more) (framer : σ) (reading : Bool) :
    Written writes wire { link with receiver := framer, reading := reading } (log ++ more) missing
      unsent where
  sender := written.sender
  carried := by simpa [accepts] using written.carried
  bytes := by simpa [accepts, reads] using written.bytes
  broken severed := List.mem_append_left _ (written.broken severed)
  intact intact := by simpa [accepts, sends, whole] using written.intact intact
  sending := written.sending
  idle := written.idle

theorem accept (written : Written writes wire link log missing unsent) {frame : Bytes}
    (carried : writes.Carried frame) (free : link.sending = none) (opened : link.closed = false) :
    Written writes wire { link with sending := some ⟨frame, writes.wire frame⟩ }
      (log ++ [.accepted frame]) (missing ++ writes.wire frame) (unsent ++ [frame]) := by
  have nothing (intact : link.severed = false) : unsent = [] ∧ missing = [] := by
    have none_left := written.idle free intact opened
    have suffix := (written.intact intact).2.2.2
    rw [none_left] at suffix
    exact ⟨none_left, List.suffix_nil.mp suffix⟩
  constructor
  · exact written.sender
  · rw [acceptedIn_append]
    intro other inside
    rcases List.mem_append.mp inside with before | new
    · exact written.carried other before
    · rw [List.mem_singleton.mp new]
      exact carried
  · rw [readIn_append, acceptedIn_append, List.flatMap_append, ← List.append_assoc wire,
      ← written.bytes]
    simp [readIn, acceptedIn]
  · exact fun severed => List.mem_append_left _ (written.broken severed)
  · intro intact
    obtain ⟨rfl, rfl⟩ := nothing intact
    obtain ⟨whole, accepted, -, -⟩ := written.intact intact
    exact ⟨by simpa using whole, by simpa [acceptedIn, sentIn] using accepted, by simp, by simp⟩
  · intro sending isSending intact
    obtain ⟨rfl, rfl⟩ := nothing intact
    cases isSending
    exact ⟨rfl, rfl⟩
  · simp

theorem write (written : Written writes wire link log missing unsent) {pending : Sending}
    (sending : link.sending = some pending) (intact : link.severed = false) (count : ℕ) :
    Written writes wire
      { link with
        sending := some ⟨pending.frame, pending.left.drop count⟩
        wire := link.wire ++ pending.left.take count }
      log (pending.left.drop count) unsent := by
  obtain ⟨rfl, rfl⟩ := written.sending pending sending intact
  exact { written with
    bytes := by
      rw [List.append_assoc, List.append_assoc, List.take_append_drop, ← List.append_assoc]
      exact written.bytes
    intact := fun intact =>
      have before := written.intact intact
      ⟨before.1, before.2.1, before.2.2.1, (List.drop_suffix _ _).trans before.2.2.2⟩
    sending := by simp
    idle := by simp }

theorem flush (written : Written writes wire link log missing unsent) {pending : Sending}
    (sending : link.sending = some pending) (intact : link.severed = false)
    (whole : pending.left = []) :
    Written writes wire { link with sending := none } (log ++ [.sent pending.frame]) [] [] := by
  obtain ⟨rfl, rfl⟩ := written.sending pending sending intact
  constructor
  · exact written.sender
  · simpa [acceptedIn] using written.carried
  · simpa [readIn, acceptedIn, whole] using written.bytes
  · exact fun severed => List.mem_append_left _ (written.broken severed)
  · intro intact
    obtain ⟨unbroken, accepted, -, -⟩ := written.intact intact
    exact ⟨by simpa using unbroken, by simpa [acceptedIn, sentIn]
      using accepted, by simp, by simp⟩
  · simp
  · simp

theorem sever (written : Written writes wire link log missing unsent) {arriving : Bytes}
    (front : arriving <+: link.wire ++ missing) :
    ∃ missing, Written writes wire { link with severed := true, wire := arriving }
      (log ++ [.severed]) missing unsent := by
  obtain ⟨lost, split⟩ := front
  refine ⟨lost, ?_⟩
  constructor
  · exact written.sender
  · simpa [acceptedIn] using written.carried
  · rw [List.append_assoc, split, ← List.append_assoc]
    simpa [readIn, acceptedIn] using written.bytes
  · simp
  · simp
  · simp
  · simp

theorem read (written : Written writes wire link log missing unsent) (count : ℕ) (receiver : σ)
    (reading : Bool) :
    Written writes wire
      { link with wire := link.wire.drop count, receiver := receiver, reading := reading }
      (log ++ [.read (link.wire.take count)]) missing unsent where
  sender := written.sender
  carried := by simpa [acceptedIn] using written.carried
  bytes := by
    have taken : readIn [.read (link.wire.take count)] = link.wire.take count := by simp [readIn]
    rw [readIn_append, taken, List.append_assoc (readIn log), List.take_append_drop]
    simpa [acceptedIn] using written.bytes
  broken severed := List.mem_append_left _ (written.broken severed)
  intact := by simpa [acceptedIn, sentIn] using written.intact
  sending := written.sending
  idle := written.idle

theorem turn (written : Written writes wire link log missing unsent) :
    Written writes wire (link.turn framer).1 (log ++ (link.turn framer).2) missing unsent := by
  obtain ⟨accepts, sends, reads, whole, -⟩ := returned_quiet (framer.pull link.receiver).1
  exact written.elsewhere _ accepts sends reads whole _ _

end Written

theorem written_step (written : Written writes wire link log missing unsent) {input : Input}
    (allowed : Offers fits link input)
    (stepped : link.step framer sizes input = some (after, emitted)) :
    ∃ missing unsent, Written writes wire after (log ++ emitted) missing unsent := by
  cases input with
  | send frame =>
      simp only [FramedLink.step, Option.ite_none_left_eq_some, not_or, not_not] at stepped
      obtain ⟨⟨opened, free⟩, stepped⟩ := stepped
      have same : framer.encode link.sender frame [] = framer.encode sender frame [] := by
        rw [written.sender]
      rcases writes.encodes frame allowed with ⟨carried, encoded⟩ | ⟨fault, encoded⟩
      · simp only [same, encoded, Option.some.injEq, Prod.mk.injEq] at stepped
        obtain ⟨rfl, rfl⟩ := stepped
        exact ⟨_, _, written.accept carried free (Bool.eq_false_iff.mpr opened)⟩
      · simp only [same, encoded, Option.some.injEq, Prod.mk.injEq] at stepped
        obtain ⟨rfl, rfl⟩ := stepped
        exact ⟨_, _, written.elsewhere _ rfl rfl rfl (by simp) _ _⟩
  | write =>
      simp only [FramedLink.step] at stepped
      cases sending : link.sending with
      | none => simp [sending] at stepped
      | some pending =>
          simp only [sending, Option.ite_none_left_eq_some, not_or, Option.some.injEq,
            Prod.mk.injEq] at stepped
          obtain ⟨⟨intact, _⟩, rfl, rfl⟩ := stepped
          rw [List.append_nil]
          exact ⟨_, _, written.write sending (Bool.eq_false_iff.mpr intact) _⟩
  | flush =>
      simp only [FramedLink.step] at stepped
      cases sending : link.sending with
      | none => simp [sending] at stepped
      | some pending =>
          simp only [sending, Option.ite_none_left_eq_some, not_or, not_not, Option.some.injEq,
            Prod.mk.injEq] at stepped
          obtain ⟨⟨intact, whole⟩, rfl, rfl⟩ := stepped
          exact ⟨_, _, written.flush sending (Bool.eq_false_iff.mpr intact) whole⟩
  | sever kept =>
      simp only [FramedLink.step, Option.ite_none_left_eq_some, Option.some.injEq,
        Prod.mk.injEq] at stepped
      obtain ⟨intact, rfl, rfl⟩ := stepped
      have offered : link.offered sizes <+: missing := by
        rw [FramedLink.offered]
        cases sending : link.sending with
        | none => simp
        | some pending =>
            obtain ⟨-, rfl⟩ := written.sending pending sending (Bool.eq_false_iff.mpr intact)
            exact List.take_prefix _ _
      have arriving : (link.wire ++ link.offered sizes).take kept <+: link.wire ++ missing :=
        (List.take_prefix _ _).trans ((List.prefix_append_right_inj _).mpr offered)
      obtain ⟨missing, severed⟩ := written.sever arriving
      exact ⟨_, _, severed⟩
  | sendError =>
      simp only [FramedLink.step, Option.ite_none_right_eq_some, Option.some.injEq,
        Prod.mk.injEq] at stepped
      obtain ⟨⟨severed, _⟩, rfl, rfl⟩ := stepped
      have failed := written.elsewhere [.sendFailed] rfl rfl rfl (by simp) link.receiver
        link.reading
      exact ⟨_, _, { failed with sending := by simp, idle := by simp [severed] }⟩
  | close =>
      simp only [FramedLink.step, Option.ite_none_left_eq_some, Option.some.injEq,
        Prod.mk.injEq] at stepped
      obtain ⟨_, rfl, rfl⟩ := stepped
      rw [List.append_nil]
      exact ⟨_, _, { written with sending := by simp, idle := by simp }⟩
  | recv =>
      simp only [FramedLink.step, Option.ite_none_left_eq_some, Option.some.injEq] at stepped
      obtain ⟨-, turned⟩ := stepped
      have kept := written.turn
      rw [turned] at kept
      exact ⟨_, _, kept⟩
  | read count =>
      simp only [FramedLink.step, Option.ite_none_left_eq_some, Option.some.injEq,
        Prod.mk.injEq] at stepped
      obtain ⟨-, rfl, rfl⟩ := stepped
      have kept := (written.read count (framer.pushBytes link.receiver (link.wire.take count))
        link.reading).turn
      rw [List.append_assoc] at kept
      exact ⟨_, _, kept⟩
  | readEnd | readError =>
      simp only [FramedLink.step, Option.ite_none_right_eq_some, Option.some.injEq,
        Prod.mk.injEq] at stepped
      obtain ⟨-, rfl, rfl⟩ := stepped
      exact ⟨_, _, written.elsewhere _ rfl rfl rfl (by simp) _ _⟩
  | drop =>
      simp only [FramedLink.step, Option.ite_none_right_eq_some, Option.some.injEq,
        Prod.mk.injEq] at stepped
      obtain ⟨-, rfl, rfl⟩ := stepped
      exact ⟨_, _, written.elsewhere _ rfl rfl rfl (by simp) _ _⟩

variable {reads : Reads framer receiver}

structure Read (reads : Reads framer receiver) (link : FramedLink σ) (log : List Event) :
    Prop where
  seen : reads.Seen link.receiver (readIn log) (returnedIn log) link.reading

namespace Read

theorem elsewhere (read : Read reads link log) (more : List Event) (unread : readIn more = [])
    (silent : returnedIn more = []) {other : FramedLink σ}
    (receiver : other.receiver = link.receiver)
    (reading : other.reading = link.reading) : Read reads other (log ++ more) where
  seen := by
    rw [receiver, reading, readIn_append, returnedIn_append, unread, silent, List.append_nil,
      List.append_nil]
    exact read.seen

theorem stop (read : Read reads link log) :
    reads.Seen link.receiver (readIn log) (returnedIn log) false := by
  have seen := read.seen
  cases reading : link.reading with
  | false => rwa [reading] at seen
  | true =>
      rw [reading] at seen
      exact reads.stops seen

theorem turn (link : FramedLink σ) (log : List Event)
    (seen : reads.Seen link.receiver (readIn log) (returnedIn log) false) :
    Read reads (link.turn framer).1 (log ++ (link.turn framer).2) := by
  constructor
  cases pulled : framer.pull link.receiver with
  | mk result state =>
      cases result with
      | none =>
          have waits := reads.waits seen pulled
          simpa [FramedLink.turn, pulled] using waits
      | some result =>
          have hands := reads.hands seen pulled
          simpa [FramedLink.turn, pulled, readIn, returnedIn] using hands

end Read

theorem read_step (read : Read reads link log) {input : Input}
    (stepped : link.step framer sizes input = some (after, emitted)) :
    Read reads after (log ++ emitted) := by
  cases input with
  | send frame =>
      simp only [FramedLink.step, Option.ite_none_left_eq_some] at stepped
      obtain ⟨-, stepped⟩ := stepped
      split at stepped <;> cases stepped <;> exact read.elsewhere _ rfl rfl rfl rfl
  | write | flush =>
      simp only [FramedLink.step] at stepped
      cases sending : link.sending with
      | none => simp [sending] at stepped
      | some pending =>
          simp only [sending, Option.ite_none_left_eq_some, Option.some.injEq,
            Prod.mk.injEq] at stepped
          obtain ⟨-, rfl, rfl⟩ := stepped
          exact read.elsewhere _ rfl rfl rfl rfl
  | sever _ | close =>
      simp only [FramedLink.step, Option.ite_none_left_eq_some, Option.some.injEq,
        Prod.mk.injEq] at stepped
      obtain ⟨-, rfl, rfl⟩ := stepped
      exact read.elsewhere _ rfl rfl rfl rfl
  | sendError =>
      simp only [FramedLink.step, Option.ite_none_right_eq_some, Option.some.injEq,
        Prod.mk.injEq] at stepped
      obtain ⟨-, rfl, rfl⟩ := stepped
      exact read.elsewhere _ rfl rfl rfl rfl
  | recv =>
      simp only [FramedLink.step, Option.ite_none_left_eq_some, Option.some.injEq] at stepped
      obtain ⟨-, turned⟩ := stepped
      have kept := Read.turn link log read.stop
      rw [turned] at kept
      exact kept
  | read count =>
      simp only [FramedLink.step, Option.ite_none_left_eq_some, Option.some.injEq,
        Prod.mk.injEq] at stepped
      obtain ⟨-, rfl, rfl⟩ := stepped
      have pushed := reads.pushes (link.wire.take count) read.seen
      have kept := Read.turn
        { link with
          wire := link.wire.drop count
          receiver := framer.pushBytes link.receiver (link.wire.take count) }
        (log ++ [.read (link.wire.take count)]) (by simpa [readIn, returnedIn] using pushed)
      rw [List.append_assoc] at kept
      exact kept
  | readEnd | readError | drop =>
      simp only [FramedLink.step, Option.ite_none_right_eq_some, Option.some.injEq,
        Prod.mk.injEq] at stepped
      obtain ⟨-, rfl, rfl⟩ := stepped
      exact ⟨by simpa [readIn, returnedIn] using read.stop⟩

variable (writes reads) in
theorem sides_of_reaches
    (reached : Reaches (FramedLink.step framer sizes) (Offers fits)
      (.joined sender wire receiver) link log) :
    (∃ missing unsent, Written writes wire link log missing unsent) ∧ Read reads link log := by
  apply reached.invariant (fun link log =>
    (∃ missing unsent, Written writes wire link log missing unsent) ∧ Read reads link log)
  · exact ⟨⟨_, _, written_joined⟩, ⟨reads.starts⟩⟩
  · rintro link log input after emitted _ allowed stepped ⟨⟨_, _, written⟩, read⟩
    exact ⟨written_step written allowed stepped, read_step read stepped⟩

/-- A stream ends only for a waiting receiver with nothing under way. -/
theorem ended_of_step {input : Input}
    (stepped : link.step framer sizes input = some (after, emitted))
    (ended : .ended ∈ emitted) : emitted = [.ended] ∧ link.reading ∧ link.wire = [] := by
  have quiet (other : FramedLink σ) : .ended ∉ (other.turn framer).2 :=
    (returned_quiet (framer.pull other.receiver).1).2.2.2.2
  cases input with
  | readEnd =>
      simp only [FramedLink.step, Option.ite_none_right_eq_some, Option.some.injEq,
        Prod.mk.injEq] at stepped
      obtain ⟨⟨reading, empty, -⟩, -, rfl⟩ := stepped
      exact ⟨rfl, reading, empty⟩
  | recv =>
      simp only [FramedLink.step, Option.ite_none_left_eq_some, Option.some.injEq] at stepped
      obtain ⟨-, turned⟩ := stepped
      have handed : (link.turn framer).2 = emitted := congrArg Prod.snd turned
      rw [← handed] at ended
      exact absurd ended (quiet link)
  | read count =>
      simp only [FramedLink.step, Option.ite_none_left_eq_some, Option.some.injEq,
        Prod.mk.injEq] at stepped
      obtain ⟨-, -, rfl⟩ := stepped
      cases ended with
      | tail _ later => exact absurd later (quiet _)
  | send frame =>
      simp only [FramedLink.step, Option.ite_none_left_eq_some] at stepped
      obtain ⟨-, stepped⟩ := stepped
      split at stepped <;> (cases stepped; simp at ended)
  | write | flush | sever | sendError | close | readError | drop =>
      simp only [FramedLink.step] at stepped
      split at stepped
      all_goals first
        | cases stepped; simp at ended
        | cases stepped
        | split at stepped <;> cases stepped; simp at ended

/-- What holds of every run at which a receiver waits with nothing under way holds
where the stream ends. -/
theorem ended_of_reaches (holds : List Event → Prop)
    (waiting : ∀ link log, Reaches (FramedLink.step framer sizes) (Offers fits)
      (.joined sender wire receiver) link log → link.reading → link.wire = [] → holds log)
    (reached : Reaches (FramedLink.step framer sizes) (Offers fits)
      (.joined sender wire receiver) link log)
    (before later : List Event) : log = before ++ .ended :: later → holds before := by
  revert before later
  apply reached.invariant (fun _ log => ∀ before later : List Event,
    log = before ++ .ended :: later → holds before)
  · simp
  · intro link log input after emitted reached _ stepped kept before later split
    rcases split_append split with ⟨tail, early, _⟩ | ⟨front, rfl, now⟩
    · exact kept before tail early
    · have among : .ended ∈ emitted := by simp [now]
      obtain ⟨rfl, reading, empty⟩ := ended_of_step stepped among
      obtain rfl : front = [] := by
        cases front with
        | nil => rfl
        | cons first front => simp at now
      rw [List.append_nil]
      exact waiting link log reached reading empty

theorem Written.sent_of_missing (written : Written writes wire link log missing unsent)
    (whole : .severed ∉ log) (done due : List Bytes) (accepted : acceptedIn log = done ++ due)
    (long : due ≠ [] → (due.tail.flatMap writes.wire).length < missing.length) :
    sentIn log <+: done := by
  have intact : link.severed = false :=
    Bool.eq_false_iff.mpr fun severed => whole (written.broken severed)
  obtain ⟨-, sent, few, suffix⟩ := written.intact intact
  rw [accepted] at sent
  cases due with
  | nil =>
      rw [List.append_nil] at sent
      exact ⟨unsent, sent.symm⟩
  | cons frame rest =>
      have lost := long (List.cons_ne_nil _ _)
      have fits := suffix.length_le
      cases unsent with
      | nil =>
          rw [List.flatMap_nil, List.length_nil] at fits
          omega
      | cons last others =>
          obtain rfl : others = [] := List.eq_nil_of_length_eq_zero (by simpa using few)
          rcases List.eq_nil_or_concat rest with rfl | ⟨before, final, rfl⟩
          · exact ⟨[], by simpa using (List.append_inj_left' sent rfl).symm⟩
          · -- the frame that is not sent stands behind the one that is missing
            rw [List.concat_eq_append, ← List.cons_append, ← List.append_assoc] at sent
            obtain rfl := List.singleton_inj.mp (List.append_inj_right' sent rfl)
            simp at lost fits
            omega

structure Contract (framer : Framer σ) (start : σ) (fits : Bytes → Prop)
    extends Writes framer start fits where
  Holds : σ → Bytes → Prop
  starts : Holds start []
  pushes : ∀ {state buf} bytes, Holds state buf →
    Holds (framer.pushBytes state bytes) (buf ++ bytes)
  /-- Of a stream of whole frames, a call hands out the first or has not all of it. -/
  takes : ∀ {state buf frames tail}, Holds state buf → (∀ frame ∈ frames, Carried frame) →
    buf ++ tail = frames.flatMap wire →
      (∃ after, framer.nextFrame state = (none, after) ∧ Holds after buf ∧
        ∀ frame ∈ frames.head?, buf.length < (wire frame).length) ∨
      ∃ frame left rest after, frames = frame :: left ∧ buf = wire frame ++ rest ∧
        framer.nextFrame state = (some (.ok frame), after) ∧ Holds after rest

variable {start : σ}

/-- Where a receiver stands in a stream of whole frames. -/
structure Contract.Stands (contract : Contract framer start fits) (frames : List Bytes) (state : σ)
    (got : Bytes) (results : List (Except FrameFault Bytes)) (waiting : Bool)
    (done due : List Bytes)
    (held : Bytes) : Prop where
  frames : frames = done ++ due
  results : results = done.map .ok
  holds : contract.Holds state held
  got : got = done.flatMap contract.wire ++ held
  waits : waiting → ∀ frame ∈ due.head?, held.length < (contract.wire frame).length

/-- On any stream that begins with the bytes read, the receiver stands behind the
frames it has handed out. -/
def Contract.Seen (contract : Contract framer start fits) (state : σ) (got : Bytes)
    (results : List (Except FrameFault Bytes)) (waiting : Bool) : Prop :=
  ∀ frames tail, (∀ frame ∈ frames, contract.Carried frame) →
    got ++ tail = frames.flatMap contract.wire →
      ∃ done due held, contract.Stands frames state got results waiting done due held

variable {contract : Contract framer start fits} {state : σ} {got held : Bytes}
  {results : List (Except FrameFault Bytes)} {waiting : Bool} {frames done due : List Bytes}

theorem Contract.Stands.takes
    (stands : contract.Stands frames state got results waiting done due held)
    (carried : ∀ frame ∈ frames, contract.Carried frame) {tail : Bytes}
    (stream : got ++ tail = frames.flatMap contract.wire) :
    (∃ after, framer.nextFrame state = (none, after) ∧
        contract.Stands frames after got results true done due held) ∨
      ∃ frame after left rest, framer.nextFrame state = (some (.ok frame), after) ∧
        contract.Stands frames after got (results ++ [.ok frame]) false
          (done ++ [frame]) left rest := by
  obtain ⟨rfl, rfl, holds, rfl, -⟩ := stands
  have ahead : held ++ tail = due.flatMap contract.wire := by
    rw [List.append_assoc, List.flatMap_append] at stream
    exact List.append_cancel_left stream
  rcases contract.takes holds (fun frame inside => carried frame (List.mem_append_right _ inside))
    ahead with ⟨after, called, kept, short⟩ |
      ⟨frame, left, rest, after, rfl, rfl, called, kept⟩
  · exact .inl ⟨after, called, rfl, rfl, kept, rfl, fun _ => short⟩
  · exact .inr ⟨frame, after, left, rest, called, by simp, by simp, kept, by simp, by simp⟩

def Contract.toReads (contract : Contract framer start fits) : Reads framer start where
  Seen := contract.Seen
  starts frames _ _ _ := ⟨[], frames, [], rfl, rfl, contract.starts, rfl, by simp⟩
  pushes := by
    intro state got results waiting bytes seen frames tail carried stream
    rw [List.append_assoc] at stream
    obtain ⟨done, due, held, same, handed, holds, split, -⟩ := seen frames _ carried stream
    exact ⟨done, due, held ++ bytes, same, handed, contract.pushes bytes holds,
      by rw [split, List.append_assoc], by simp⟩
  waits := by
    intro state got results after seen pulled frames tail carried stream
    obtain ⟨done, due, held, stands⟩ := seen frames tail carried stream
    rcases stands.takes carried stream with ⟨_, called, kept⟩ | ⟨frame, _, _, _, called, -⟩
    · rw [Framer.pull_of_none called] at pulled
      cases pulled
      exact ⟨_, _, _, kept⟩
    · rw [Framer.pull_of_frame called] at pulled
      cases pulled
  hands := by
    intro state got results result after seen pulled frames tail carried stream
    obtain ⟨done, due, held, stands⟩ := seen frames tail carried stream
    rcases stands.takes carried stream with ⟨_, called, -⟩ | ⟨frame, _, _, _, called, kept⟩
    · rw [Framer.pull_of_none called] at pulled
      cases pulled
    · rw [Framer.pull_of_frame called] at pulled
      cases pulled
      exact ⟨_, _, _, kept⟩
  stops seen frames tail carried stream := by
    obtain ⟨done, due, held, stands⟩ := seen frames tail carried stream
    exact ⟨done, due, held, { stands with waits := by simp }⟩

/-- What a link keeps, whatever it is asked and wherever it breaks. -/
structure Delivers (wire : Bytes → Bytes) (link : FramedLink σ) (log : List Event) : Prop where
  /-- Frames are received as they were accepted, in order, none lost between two, and
  no `recv` fails for the bytes it is brought. -/
  ordered : returnedIn log <+: (acceptedIn log).map .ok
  /-- Every frame whose bytes have been read was handed out, where a `recv` waits. -/
  prompt : link.reading → ∀ frames, frames <+: acceptedIn log →
    (frames.flatMap wire).length ≤ (readIn log).length → frames.map .ok <+: returnedIn log
  /-- At the end of a stream that has not failed, everything sent has been received. -/
  complete : ∀ before after, log = before ++ .ended :: after → .severed ∉ before →
    (sentIn before).map .ok <+: returnedIn before

theorem Contract.stands_of_reaches (contract : Contract framer start fits)
    (reached : Reaches (FramedLink.step framer sizes) (Offers fits) (.new start) link log) :
    ∃ missing unsent done due held, Written contract.toWrites [] link log missing unsent ∧
      contract.Stands (acceptedIn log) link.receiver (readIn log) (returnedIn log) link.reading
        done due held ∧ held ++ link.wire ++ missing = due.flatMap contract.wire := by
  obtain ⟨⟨missing, unsent, written⟩, read⟩ :=
    sides_of_reaches contract.toWrites contract.toReads reached
  have stream := written.bytes
  rw [List.nil_append, List.append_assoc] at stream
  obtain ⟨done, due, held, stands⟩ := read.seen _ _ written.carried stream
  refine ⟨missing, unsent, done, due, held, written, stands, ?_⟩
  rw [stands.got, stands.frames, List.flatMap_append, List.append_assoc,
    ← List.append_assoc held] at stream
  exact List.append_cancel_left stream

theorem Contract.delivers_of_reaches (contract : Contract framer start fits)
    (reached : Reaches (FramedLink.step framer sizes) (Offers fits) (.new start) link log) :
    Delivers contract.wire link log := by
  constructor
  · obtain ⟨_, _, done, due, _, _, stands, _⟩ := contract.stands_of_reaches reached
    rw [stands.frames, stands.results, List.map_append]
    exact List.prefix_append _ _
  · intro reading frames accepted arrived
    obtain ⟨_, _, done, due, held, _, stands, _⟩ := contract.stands_of_reaches reached
    rw [stands.results]
    apply List.IsPrefix.map
    rw [stands.frames] at accepted
    rcases List.prefix_or_prefix_of_prefix accepted (List.prefix_append _ due) with
      early | ⟨late, rfl⟩
    · exact early
    · cases late with
      | nil => simp
      | cons frame late =>
          obtain ⟨rest, rfl⟩ := (List.prefix_append_right_inj _).mp accepted
          have short := stands.waits reading frame rfl
          rw [stands.got] at arrived
          simp at arrived
          omega
  · intro before later split
    refine ended_of_reaches (fun log => .severed ∉ log →
      (sentIn log).map .ok <+: returnedIn log)
      ?_ reached before later split
    intro link log reached reading empty whole
    obtain ⟨missing, _, done, due, held, written, stands, bytes⟩ :=
      contract.stands_of_reaches reached
    rw [empty, List.append_nil] at bytes
    rw [stands.results]
    refine (written.sent_of_missing whole done due stands.frames fun some_due => ?_).map _
    cases due with
    | nil => exact absurd rfl some_due
    | cons frame rest =>
        have short := stands.waits reading frame rfl
        have length := congrArg List.length bytes
        rw [List.flatMap_cons, List.length_append, List.length_append] at length
        change (rest.flatMap contract.wire).length < missing.length
        omega

end AimDb.Session.Io
