import AimDb.Serial.Recovery
import AimDb.Session.Io.Delivered

/-!
# Connections over a serial line

A framer with a sentinel loses its place where bytes are lost or changed, and
finds it again at the next sentinel: of what is sent from then on, at most the
first frame is spoilt.
-/

namespace AimDb.Serial

open AimDb.Framing
open AimDb.Json (Bytes)
open AimDb.Session.Io
open AimDb.Tcp (FrameFault)
open AimDb.Transition

/-- Cap on the bytes that are buffered without a sentinel. -/
def DEFAULT_MAX_FRAME : ℕ := 8 * 1024

structure CobsFramer where
  acc : FrameAccumulator
  deriving DecidableEq

namespace CobsFramer

def new : CobsFramer := ⟨.withMaxFrame DEFAULT_MAX_FRAME⟩

def encode (cobs : Cobs) (_ : CobsFramer) (frame out : Bytes) : Except FrameFault Unit × Bytes :=
  (.ok (), encodeFrame cobs frame out)

def pushBytes (framer : CobsFramer) (bytes : Bytes) : CobsFramer := ⟨framer.acc.pushBytes bytes⟩

/-- A dropped run never invalidates the rest of the stream. -/
def nextFrame (cobs : Cobs) (framer : CobsFramer) :
    Option (Except FrameFault Bytes) × CobsFramer :=
  let called := framer.acc.nextFrame cobs
  (called.1.map fun result => result.mapError fun _ => .recoverable, ⟨called.2⟩)

variable {cobs : Cobs} {framer after : CobsFramer}

theorem nextFrame_shrinks {result : Except FrameFault Bytes}
    (called : framer.nextFrame cobs = (some result, after)) :
    after.acc.buf.length < framer.acc.buf.length := by
  rw [nextFrame] at called
  cases found : framer.acc.nextFrame cobs with
  | mk inner acc =>
      rw [found] at called
      cases inner with
      | none => cases called
      | some inner =>
          cases called
          exact FrameAccumulator.nextFrame_shrinks found

def framing (cobs : Cobs) : Framer CobsFramer where
  encode := encode cobs
  pushBytes := pushBytes
  nextFrame := nextFrame cobs
  held framer := framer.acc.buf.length
  shrinks := nextFrame_shrinks

end CobsFramer

namespace FrameAccumulator

variable {cobs : Cobs} {acc : FrameAccumulator} {maxFrame : ℕ} {tail : Bytes} {due : List Bytes}

def wire (cobs : Cobs) (frame : Bytes) : Bytes := cobs.encode frame ++ [DELIM]

def Fits (cobs : Cobs) (maxFrame : ℕ) (frame : Bytes) : Prop :=
  (cobs.encode frame).length ≤ maxFrame

instance : DecidablePred (Fits cobs maxFrame) := fun _ => inferInstanceAs (Decidable (_ ≤ _))

theorem clean_eq_flatMap (frames : List Bytes) :
    clean cobs frames = frames.flatMap (wire cobs) := by
  simp only [clean, encodeFrame, List.nil_append]
  rfl

structure Aligned (cobs : Cobs) (maxFrame : ℕ) (acc : FrameAccumulator) (tail : Bytes)
    (due : List Bytes) : Prop where
  cap : acc.maxFrame = maxFrame
  aligned : acc.resyncing = false
  stream : acc.buf ++ tail = clean cobs due

/-- Anywhere: some bytes and a sentinel stand before the frames due. -/
structure Lost (cobs : Cobs) (maxFrame : ℕ) (acc : FrameAccumulator) (tail : Bytes)
    (due : List Bytes) : Prop where
  cap : acc.maxFrame = maxFrame
  stream : ∃ junk, acc.buf ++ tail = junk ++ DELIM :: clean cobs due

def Short (cobs : Cobs) (acc : FrameAccumulator) (due : List Bytes) : Prop :=
  ∀ frame ∈ due.head?, acc.buf.length < (wire cobs frame).length

theorem nextFrame_of_free (free : DELIM ∉ acc.buf) :
    nextFrame cobs acc =
      if acc.resyncing then (none, { acc with buf := [] })
      else if acc.maxFrame < acc.buf.length then
        (some (.error ⟨⟩), { acc with buf := [], resyncing := true })
      else (none, acc) := by
  have nothing := cut_eq_none_iff.mpr free
  rw [nextFrame]
  split
  · rfl
  · next found =>
      rw [nothing] at found
      cases found

theorem Aligned.next (aligned : Aligned cobs maxFrame acc tail due)
    (fit : ∀ frame ∈ due, Fits cobs maxFrame frame) :
    nextFrame cobs acc = (none, acc) ∧ Short cobs acc due ∨
      ∃ frame left after, due = frame :: left ∧
      nextFrame cobs acc = (some (.ok frame), after) ∧
        Aligned cobs maxFrame after tail left := by
  obtain ⟨rfl, straight, stream⟩ := aligned
  cases due with
  | nil =>
      have empty : acc.buf = [] := (List.append_eq_nil_iff.mp stream).1
      refine .inl ⟨?_, by simp [Short]⟩
      rw [nextFrame_of_free (by simp [empty])]
      simp [straight, empty]
  | cons frame left =>
      rw [clean_eq_flatMap, List.flatMap_cons] at stream
      by_cases short : acc.buf.length < (wire cobs frame).length
      · have front : acc.buf <+: cobs.encode frame := by
          refine List.prefix_of_prefix_length_le ⟨tail, stream⟩ ?_ ?_
          · rw [wire, List.append_assoc]
            exact List.prefix_append _ _
          · simp only [wire, List.length_append, List.length_singleton] at short
            omega
        have free : DELIM ∉ acc.buf := fun inside => cobs.encode_free frame (front.subset inside)
        have within : acc.buf.length ≤ acc.maxFrame :=
          Nat.le_trans front.length_le (fit frame List.mem_cons_self)
        refine .inl ⟨?_, by simpa [Short] using short⟩
        rw [nextFrame_of_free free, if_neg (by simp [straight]), if_neg (by omega)]
      · obtain ⟨rest, whole⟩ : wire cobs frame <+: acc.buf :=
          List.prefix_of_prefix_length_le ⟨_, stream.symm⟩ (List.prefix_append _ tail)
            (Nat.le_of_not_lt short)
        have split : cut DELIM acc.buf = some (cobs.encode frame, rest) := by
          rw [← whole, wire, List.append_assoc]
          exact cut_append (cobs.encode_free frame) rest
        refine .inr ⟨frame, left, { acc with buf := rest, resyncing := false }, rfl, ?_,
          rfl, rfl, ?_⟩
        · rw [nextFrame_of_cut split, straight, handed_encode]
        · rw [← whole, List.append_assoc] at stream
          rw [clean_eq_flatMap]
          exact List.append_cancel_left stream

/-- Past a sentinel, the frames due are nearer or come next. -/
theorem Lost.of_cut (lost : Lost cobs maxFrame acc tail due) {encoded rest : Bytes}
    (split : cut DELIM acc.buf = some (encoded, rest)) :
    Lost cobs maxFrame { acc with buf := rest, resyncing := false } tail due ∨
      Aligned cobs maxFrame { acc with buf := rest, resyncing := false } tail due := by
  obtain ⟨cap, junk, stream⟩ := lost
  obtain ⟨shape, free⟩ := cut_eq_some_iff.mp split
  have whole : cut DELIM (junk ++ DELIM :: clean cobs due) = some (encoded, rest ++ tail) := by
    rw [← stream, shape, List.append_assoc]
    exact cut_append free _
  cases found : cut DELIM junk with
  | none =>
      rw [cut_append (cut_eq_none_iff.mp found)] at whole
      obtain ⟨-, same⟩ := Prod.mk.inj (Option.some.inj whole)
      exact .inr ⟨cap, rfl, same.symm⟩
  | some pieces =>
      obtain ⟨before, more⟩ := pieces
      obtain ⟨rfl, freeBefore⟩ := cut_eq_some_iff.mp found
      rw [List.append_assoc, List.cons_append, cut_append freeBefore] at whole
      obtain ⟨-, same⟩ := Prod.mk.inj (Option.some.inj whole)
      exact .inl ⟨cap, more, same.symm⟩

/-- What a call comes to that begins anywhere. -/
inductive Finds (cobs : Cobs) (maxFrame : ℕ) (tail : Bytes) (due : List Bytes) :
    Option (Except FrameError Bytes) × FrameAccumulator → Prop
  | nothing {after} : Lost cobs maxFrame after tail due → DELIM ∉ after.buf →
      Finds cobs maxFrame tail due (none, after)
  | short {after} : Aligned cobs maxFrame after tail due → Short cobs after due →
      Finds cobs maxFrame tail due (none, after)
  | noise {result after} :
      Lost cobs maxFrame after tail due ∨ Aligned cobs maxFrame after tail due →
      Finds cobs maxFrame tail due (some result, after)
  | frame {frame left after} : due = frame :: left → Aligned cobs maxFrame after tail left →
      Finds cobs maxFrame tail due (some (.ok frame), after)

theorem Aligned.finds (aligned : Aligned cobs maxFrame acc tail due)
    (fit : ∀ frame ∈ due, Fits cobs maxFrame frame) :
    Finds cobs maxFrame tail due (nextFrame cobs acc) := by
  rcases aligned.next fit with ⟨called, short⟩ | ⟨frame, left, after, same, called, kept⟩
  · rw [called]
    exact .short aligned short
  · rw [called]
    exact .frame same kept

theorem Lost.finds (lost : Lost cobs maxFrame acc tail due)
    (fit : ∀ frame ∈ due, Fits cobs maxFrame frame) :
    Finds cobs maxFrame tail due (nextFrame cobs acc) := by
  induction acc using bufferInduction with
  | free acc free =>
      obtain ⟨cap, junk, stream⟩ := lost
      -- the junk goes on after the buffer, which may be given up
      have ahead : ∃ junk, tail = junk ++ DELIM :: clean cobs due := by
        rcases List.append_eq_append_iff.mp stream with
          ⟨more, _, rest⟩ | ⟨more, whole, rest⟩
        · exact ⟨more, rest⟩
        · cases more with
          | nil => exact ⟨[], rest.symm⟩
          | cons first more =>
              obtain ⟨rfl, -⟩ := List.cons.inj rest
              exact absurd (by simp [whole]) free
      rw [nextFrame_of_free free]
      split_ifs
      · exact .nothing ⟨cap, ahead⟩ (by simp)
      · exact .noise (.inl ⟨cap, ahead⟩)
      · exact .nothing ⟨cap, junk, stream⟩ free
  | delimited acc encoded rest split inductionHypothesis =>
      rw [nextFrame_of_cut split]
      have past := lost.of_cut split
      cases handed cobs acc.resyncing encoded with
      | nil =>
          rcases past with lost | aligned
          · exact inductionHypothesis lost
          · exact aligned.finds fit
      | cons result more => exact .noise past

/-- A buffer without sentinel ends before the sentinel that is searched for. -/
theorem Lost.length_lt {acc : FrameAccumulator} (lost : Lost cobs maxFrame acc tail due)
    (free : DELIM ∉ acc.buf) : (clean cobs due).length < tail.length := by
  obtain ⟨-, junk, stream⟩ := lost
  rcases List.append_eq_append_iff.mp stream with ⟨more, _, rest⟩ | ⟨more, whole, rest⟩
  · rw [rest, List.length_append, List.length_cons]
    omega
  · cases more with
    | nil =>
        rw [List.nil_append] at rest
        rw [← rest, List.length_cons]
        omega
    | cons first more =>
        obtain ⟨rfl, -⟩ := List.cons.inj rest
        exact absurd (by simp [whole]) free

end FrameAccumulator

namespace CobsFramer

open FrameAccumulator (Aligned Lost Short Finds Fits clean wire clean_eq_flatMap)

variable {cobs : Cobs} {framer : CobsFramer} {maxFrame : ℕ} {tail : Bytes} {due : List Bytes}

/-- What the calls of one `recv` come to. -/
inductive Pulls (cobs : Cobs) (maxFrame : ℕ) (tail : Bytes) (due : List Bytes) :
    Option (Except FrameFault Bytes) × CobsFramer → Prop
  | nothing {after} : Lost cobs maxFrame after tail due → DELIM ∉ after.buf →
      Pulls cobs maxFrame tail due (none, ⟨after⟩)
  | short {after} : Aligned cobs maxFrame after tail due → Short cobs after due →
      Pulls cobs maxFrame tail due (none, ⟨after⟩)
  | noise {frame after} :
      Lost cobs maxFrame after tail due ∨ Aligned cobs maxFrame after tail due →
      Pulls cobs maxFrame tail due (some (.ok frame), ⟨after⟩)
  | frame {frame left after} : due = frame :: left → Aligned cobs maxFrame after tail left →
      Pulls cobs maxFrame tail due (some (.ok frame), ⟨after⟩)

theorem nextFrame_eq {acc after : FrameAccumulator} {result : Option (Except FrameError Bytes)}
    (called : acc.nextFrame cobs = (result, after)) :
    (framing cobs).nextFrame ⟨acc⟩ =
      (result.map fun result => result.mapError fun _ => .recoverable, ⟨after⟩) := by
  simp [framing, nextFrame, called]

theorem pulls (fit : ∀ frame ∈ due, Fits cobs maxFrame frame) (acc : FrameAccumulator)
    (stands : Lost cobs maxFrame acc tail due ∨ Aligned cobs maxFrame acc tail due) :
    Pulls cobs maxFrame tail due ((framing cobs).pull ⟨acc⟩) := by
  induction size : acc.buf.length using Nat.strongRecOn generalizing acc with
  | ind size inductionHypothesis =>
      have finds : Finds cobs maxFrame tail due (acc.nextFrame cobs) := by
        rcases stands with lost | aligned
        · exact lost.finds fit
        · exact aligned.finds fit
      cases called : acc.nextFrame cobs with
      | mk result after =>
          have next := nextFrame_eq called
          rw [called] at finds
          cases finds with
          | nothing lost free =>
              rw [Framer.pull_of_none next]
              exact .nothing lost free
          | short aligned short =>
              rw [Framer.pull_of_none next]
              exact .short aligned short
          | frame same aligned =>
              rw [Framer.pull_of_frame next]
              exact .frame same aligned
          | @noise result _ past =>
              cases result with
              | ok frame =>
                  rw [Framer.pull_of_frame next]
                  exact .noise past
              | error _ =>
                  rw [Framer.pull_of_recoverable next]
                  apply inductionHypothesis _ _ _ past rfl
                  rw [← size]
                  exact FrameAccumulator.nextFrame_shrinks called

/-- Of a stream with a sentinel somewhere, the results are some noise and then the
frames that follow the sentinel. -/
structure Follows (cobs : Cobs) (maxFrame : ℕ) (tail : Bytes) (due : List Bytes)
    (framer : CobsFramer) (results : List (Except FrameFault Bytes)) (waiting : Bool)
    (garbage done left : List Bytes) : Prop where
  results : results = (garbage ++ done).map .ok
  due : due = done ++ left
  aligned : Aligned cobs maxFrame framer.acc tail left
  waits : waiting → Short cobs framer.acc left

/-- The sentinel has still to be passed. -/
structure Searches (cobs : Cobs) (maxFrame : ℕ) (tail : Bytes) (due : List Bytes)
    (framer : CobsFramer) (results : List (Except FrameFault Bytes)) (waiting : Bool)
    (garbage : List Bytes) : Prop where
  results : results = garbage.map .ok
  lost : Lost cobs maxFrame framer.acc tail due
  waits : waiting → DELIM ∉ framer.acc.buf

def Seen (cobs : Cobs) (receiver framer : CobsFramer) (got : Bytes)
    (results : List (Except FrameFault Bytes)) (waiting : Bool) : Prop :=
  ∀ tail junk due, (∀ frame ∈ due, Fits cobs receiver.acc.maxFrame frame) →
    receiver.acc.buf ++ got ++ tail = junk ++ DELIM :: clean cobs due →
      (∃ garbage, Searches cobs receiver.acc.maxFrame tail due framer results waiting garbage) ∨
      ∃ garbage done left,
        Follows cobs receiver.acc.maxFrame tail due framer results waiting garbage done left

variable {receiver after : CobsFramer} {got : Bytes} {results : List (Except FrameFault Bytes)}

theorem Aligned.pull {acc : FrameAccumulator} (aligned : Aligned cobs maxFrame acc tail due)
    (fit : ∀ frame ∈ due, Fits cobs maxFrame frame) :
    (framing cobs).pull ⟨acc⟩ = (none, ⟨acc⟩) ∧ Short cobs acc due ∨
      ∃ frame left after, due = frame :: left ∧
        (framing cobs).pull ⟨acc⟩ = (some (.ok frame), ⟨after⟩) ∧
        Aligned cobs maxFrame after tail left := by
  rcases aligned.next fit with ⟨called, short⟩ | ⟨frame, left, after, same, called, kept⟩
  · exact .inl ⟨Framer.pull_of_none (nextFrame_eq called), short⟩
  · exact .inr ⟨frame, left, after, same, Framer.pull_of_frame (nextFrame_eq called), kept⟩

theorem Seen.waits (seen : Seen cobs receiver framer got results false)
    (pulled : (framing cobs).pull framer = (none, after)) :
    Seen cobs receiver after got results true := by
  intro tail junk due fit stream
  rcases seen tail junk due fit stream with
    ⟨garbage, same, lost, -⟩ | ⟨garbage, done, left, same, rfl, aligned, -⟩
  · have found := pulls fit framer.acc (.inl lost)
    rw [pulled] at found
    cases found with
    | nothing lost free => exact .inl ⟨garbage, same, lost, fun _ => free⟩
    | short aligned short =>
        exact .inr ⟨garbage, [], due, by simpa using same, rfl, aligned, fun _ => short⟩
  · rcases Aligned.pull aligned fun frame inside => fit frame (List.mem_append_right _ inside) with
      ⟨found, short⟩ | ⟨frame, _, _, _, found, _⟩
    · cases pulled.symm.trans found
      exact .inr ⟨garbage, done, left, same, rfl, aligned, fun _ => short⟩
    · cases pulled.symm.trans found

theorem Seen.hands (seen : Seen cobs receiver framer got results false)
    {result : Except FrameFault Bytes}
    (pulled : (framing cobs).pull framer = (some result, after)) :
    Seen cobs receiver after got (results ++ [result]) false := by
  intro tail junk due fit stream
  rcases seen tail junk due fit stream with
    ⟨garbage, same, lost, -⟩ | ⟨garbage, done, left, same, rfl, aligned, -⟩
  · have found := pulls fit framer.acc (.inl lost)
    rw [pulled] at found
    cases found with
    | @noise frame _ past =>
        rcases past with lost | aligned
        · exact .inl ⟨garbage ++ [frame], by simp [same], lost, by simp⟩
        · exact .inr ⟨garbage ++ [frame], [], due, by simp [same], rfl, aligned, by simp⟩
    | @frame frame left _ split aligned =>
        exact .inr ⟨garbage, [frame], left, by simp [same], split, aligned, by simp⟩
  · rcases Aligned.pull aligned fun frame inside => fit frame (List.mem_append_right _ inside) with
      ⟨found, _⟩ | ⟨frame, rest, _, split, found, kept⟩
    · cases pulled.symm.trans found
    · cases pulled.symm.trans found
      exact .inr ⟨garbage, done ++ [frame], rest, by simp [same], by simp [split],
        kept, by simp⟩

def reads (cobs : Cobs) (receiver : CobsFramer) : Reads (framing cobs) receiver where
  Seen := Seen cobs receiver
  starts _ junk _ _ stream := by
    rw [List.append_nil] at stream
    exact .inl ⟨[], rfl, ⟨rfl, junk, stream⟩, by simp⟩
  pushes := by
    intro framer got results waiting bytes seen tail junk due fit stream
    rw [← List.append_assoc, List.append_assoc _ bytes] at stream
    rcases seen _ junk due fit stream with
      ⟨garbage, same, ⟨cap, junk, ahead⟩, -⟩ |
        ⟨garbage, done, left, same, split, aligned, -⟩
    · rw [← List.append_assoc] at ahead
      exact .inl ⟨garbage, same, ⟨cap, junk, ahead⟩, by simp⟩
    · have ahead := aligned.stream
      rw [← List.append_assoc] at ahead
      exact .inr ⟨garbage, done, left, same, split,
        ⟨aligned.cap, aligned.aligned, ahead⟩, by simp⟩
  waits := Seen.waits
  hands seen pulled := seen.hands pulled
  stops := by
    intro framer got results seen tail junk due fit stream
    rcases seen tail junk due fit stream with
      ⟨garbage, searches⟩ | ⟨garbage, done, left, follows⟩
    · exact .inl ⟨garbage, { searches with waits := by simp }⟩
    · exact .inr ⟨garbage, done, left, { follows with waits := by simp }⟩

def writes (cobs : Cobs) (sender : CobsFramer) (maxFrame : ℕ) :
    Writes (framing cobs) sender (Fits cobs maxFrame) where
  wire := wire cobs
  Carried := Fits cobs maxFrame
  encodes frame fits := .inl ⟨fits, by simp [framing, encode, encodeFrame, wire]⟩

/-- A framer on a line that it has read from the start keeps its promise. -/
def contract (cobs : Cobs) (maxFrame : ℕ) :
    Contract (framing cobs) ⟨.withMaxFrame maxFrame⟩ (Fits cobs maxFrame) where
  toWrites := writes cobs _ maxFrame
  Holds framer buf := framer.acc = ⟨buf, false, maxFrame⟩
  starts := rfl
  pushes bytes holds := by
    change FrameAccumulator.pushBytes _ _ = _
    rw [holds]
    rfl
  takes := by
    intro framer buf frames tail holds carried stream
    obtain ⟨acc⟩ := framer
    obtain rfl : acc = ⟨buf, false, maxFrame⟩ := holds
    have aligned : Aligned cobs maxFrame ⟨buf, false, maxFrame⟩ tail frames :=
      ⟨rfl, rfl, by rw [clean_eq_flatMap]; exact stream⟩
    rcases aligned.next carried with ⟨called, short⟩ |
      ⟨frame, left, ⟨rest, _, _⟩, rfl, called, rfl, rfl, ahead⟩
    · exact .inl ⟨_, nextFrame_eq called, rfl, short⟩
    · refine .inr ⟨frame, left, rest, _, rfl, ?_, nextFrame_eq called, rfl⟩
      have whole : buf ++ tail = wire cobs frame ++ rest ++ tail := by
        rw [List.append_assoc, ahead, clean_eq_flatMap]
        exact stream
      exact List.append_cancel_right whole

theorem line_delivers (cobs : Cobs) (maxFrame : ℕ) (sizes : ChunkSizes)
    {link : FramedLink CobsFramer} {log : List Event}
    (reached : Reaches (FramedLink.step (framing cobs) sizes) (Offers (Fits cobs maxFrame))
      (.new ⟨.withMaxFrame maxFrame⟩) link log) :
    Delivers (wire cobs) link log :=
  (contract cobs maxFrame).delivers_of_reaches reached

/-- The results are some noise and then, of the frames accepted, all but the first
in order, with all but the first of `frames` among them. -/
def Resumed (log : List Event) (frames : List Bytes) : Prop :=
  ∃ garbage done, returnedIn log = (garbage ++ done).map .ok ∧
    done <+: (acceptedIn log).tail ∧ frames.tail <+: done

/-- What a receiver keeps that joins a line with `joined` under way. -/
structure Resumes (cobs : Cobs) (joined : Bytes) (link : FramedLink CobsFramer) (log : List Event) :
    Prop where
  /-- No `recv` fails for the bytes it is brought. -/
  faultless : ∃ frames : List Bytes, returnedIn log = frames.map .ok
  prompt : link.reading → ∀ frames, frames <+: acceptedIn log →
    (joined ++ clean cobs frames).length ≤ (readIn log).length → Resumed log frames
  /-- At the end of a stream that has not failed, every frame sent but the first was. -/
  complete : ∀ before after, log = before ++ .ended :: after → .severed ∉ before →
    Resumed before (sentIn before)

variable {sender : CobsFramer} {joined : Bytes} {link : FramedLink CobsFramer} {log : List Event}
  {sizes : ChunkSizes}

theorem stands_of_reaches
    (reached : Reaches (FramedLink.step (framing cobs) sizes)
      (Offers (Fits cobs receiver.acc.maxFrame))
      (.joined sender joined receiver) link log) {first : Bytes} {due : List Bytes}
    (accepted : acceptedIn log = first :: due) :
    ∃ missing unsent, Written (writes cobs sender receiver.acc.maxFrame) joined link log missing
      unsent ∧
      ((∃ garbage, Searches cobs receiver.acc.maxFrame (link.wire ++ missing) due link.receiver
          (returnedIn log) link.reading garbage) ∨
        ∃ garbage done left, Follows cobs receiver.acc.maxFrame (link.wire ++ missing) due
          link.receiver (returnedIn log) link.reading garbage done left) := by
  obtain ⟨⟨missing, unsent, written⟩, read⟩ :=
    sides_of_reaches (writes cobs sender _) (reads cobs receiver) reached
  have seen : Seen cobs receiver link.receiver (readIn log) (returnedIn log) link.reading :=
    read.seen
  refine ⟨missing, unsent, written, seen _ (receiver.acc.buf ++ joined ++ cobs.encode first) due
    (fun frame inside => ?_) ?_⟩
  · exact written.carried frame (by rw [accepted]; exact List.mem_cons_of_mem _ inside)
  · have stream := written.bytes
    rw [accepted, List.flatMap_cons] at stream
    rw [clean_eq_flatMap, List.append_assoc, ← List.append_assoc (readIn log), stream]
    simp [writes, wire]

theorem faultless_of_reaches
    (reached : Reaches (FramedLink.step (framing cobs) sizes)
      (Offers (Fits cobs receiver.acc.maxFrame))
      (.joined sender joined receiver) link log) :
    ∃ frames : List Bytes, returnedIn log = frames.map .ok := by
  have seen : Seen cobs receiver link.receiver (readIn log) (returnedIn log) link.reading :=
    (sides_of_reaches (writes cobs sender _) (reads cobs receiver) reached).2.seen
  rcases seen [DELIM] _ [] (by simp) rfl with
    ⟨garbage, searches⟩ | ⟨garbage, done, _, follows⟩
  · exact ⟨_, searches.results⟩
  · exact ⟨_, follows.results⟩

theorem resumed_of_few {frames : List Bytes}
    (faultless : ∃ frames : List Bytes, returnedIn log = frames.map .ok)
    (few : frames.tail = []) : Resumed log frames := by
  obtain ⟨garbage, same⟩ := faultless
  exact ⟨garbage, [], by simpa using same, List.nil_prefix, by simp [few]⟩

theorem length_clean_cons (frame : Bytes) (frames : List Bytes) :
    (clean cobs (frame :: frames)).length =
        (wire cobs frame).length + (clean cobs frames).length := by
  rw [clean_eq_flatMap, clean_eq_flatMap, List.flatMap_cons, List.length_append]

theorem length_clean_append (frames more : List Bytes) :
    (clean cobs (frames ++ more)).length =
        (clean cobs frames).length + (clean cobs more).length := by
  rw [clean_eq_flatMap, clean_eq_flatMap, clean_eq_flatMap, List.flatMap_append, List.length_append]

theorem resumed_of_prompt
    (reached : Reaches (FramedLink.step (framing cobs) sizes)
      (Offers (Fits cobs receiver.acc.maxFrame))
      (.joined sender joined receiver) link log) (reading : link.reading) {frames : List Bytes}
    (accepted : frames <+: acceptedIn log)
    (arrived : (joined ++ clean cobs frames).length ≤ (readIn log).length) :
    Resumed log frames := by
  cases frames with
  | nil => exact resumed_of_few (faultless_of_reaches reached) rfl
  | cons first more =>
      obtain ⟨others, split⟩ := accepted
      have all : acceptedIn log = first :: (more ++ others) := split.symm
      obtain ⟨missing, _, written, stands⟩ := stands_of_reaches reached all
      have bytes := congrArg List.length written.bytes
      rw [all] at bytes
      simp only [writes, ← clean_eq_flatMap, List.length_append,
        length_clean_cons] at bytes arrived
      rcases stands with ⟨_, _, lost, free⟩ |
        ⟨garbage, done, left, same, due, aligned, short⟩
      · -- the sentinel behind the first frame is not read
        have ahead := lost.length_lt (free reading)
        rw [List.length_append] at ahead
        omega
      · refine ⟨garbage, done, same, ?_, ?_⟩
        · rw [all, List.tail_cons, due]
          exact List.prefix_append _ _
        have front : more <+: done ++ left := by
          rw [← due]
          exact List.prefix_append _ _
        rcases List.prefix_or_prefix_of_prefix front (List.prefix_append done left) with
          early | ⟨late, rfl⟩
        · exact early
        · cases late with
          | nil => simp
          | cons frame late =>
              obtain ⟨rest, rfl⟩ := (List.prefix_append_right_inj _).mp front
              have next := short reading frame rfl
              have ahead := congrArg List.length aligned.stream
              rw [due] at bytes
              simp only [List.cons_append, length_clean_append, length_clean_cons,
                List.length_append]
                at bytes arrived ahead
              omega

theorem resumed_of_end
    (reached : Reaches (FramedLink.step (framing cobs) sizes)
      (Offers (Fits cobs receiver.acc.maxFrame))
      (.joined sender joined receiver) link log) (reading : link.reading) (empty : link.wire = [])
    (whole : .severed ∉ log) : Resumed log (sentIn log) := by
  have faultless := faultless_of_reaches reached
  obtain ⟨⟨_, _, written⟩, _⟩ :=
    sides_of_reaches (writes cobs sender _) (reads cobs receiver) reached
  cases all : acceptedIn log with
  | nil =>
      have sent := written.sent_of_missing whole [] [] all (by simp)
      exact resumed_of_few faultless (by rw [List.prefix_nil.mp sent]; rfl)
  | cons first due =>
      obtain ⟨missing, _, written, stands⟩ := stands_of_reaches reached all
      rw [empty, List.nil_append] at stands
      rcases stands with ⟨_, _, lost, free⟩ |
        ⟨garbage, done, left, same, rfl, aligned, short⟩
      · have sent := written.sent_of_missing whole [] (first :: due) all fun _ => by
          have ahead := lost.length_lt (free reading)
          rwa [clean_eq_flatMap] at ahead
        exact resumed_of_few faultless (by rw [List.prefix_nil.mp sent]; rfl)
      · have sent := written.sent_of_missing whole (first :: done) left all fun some_left => by
          cases left with
          | nil => exact absurd rfl some_left
          | cons frame rest =>
              have next := short reading frame rfl
              have ahead := congrArg List.length aligned.stream
              rw [length_clean_cons, List.length_append] at ahead
              change (rest.flatMap (wire cobs)).length < missing.length
              rw [← clean_eq_flatMap]
              omega
        refine ⟨garbage, done, same, ?_, ?_⟩
        · rw [all, List.tail_cons]
          exact List.prefix_append _ _
        · rcases List.prefix_cons_iff.mp sent with nothing | ⟨others, some_sent, behind⟩
          · simp [nothing]
          · rwa [some_sent]

/-- A receiver in any state joins a line with any bytes under way: whatever is sent
from then on, however it is cut and wherever it breaks. -/
theorem connection_resumes (cobs : Cobs) (sizes : ChunkSizes) (sender receiver : CobsFramer)
    (joined : Bytes) {link : FramedLink CobsFramer} {log : List Event}
    (reached : Reaches (FramedLink.step (framing cobs) sizes)
      (Offers (Fits cobs receiver.acc.maxFrame))
      (.joined sender joined receiver) link log) :
    Resumes cobs joined link log where
  faultless := faultless_of_reaches reached
  prompt reading _ accepted arrived := resumed_of_prompt reached reading accepted arrived
  complete before later split whole :=
    ended_of_reaches (fun log => .severed ∉ log → Resumed log (sentIn log))
      (fun _ _ reached reading empty whole => resumed_of_end reached reading empty whole)
      reached before later split whole

/-- The receiver still drops an oversized run; the first frame goes with it. -/
def spoilt : List Input :=
  [.recv, .send [7], .write, .flush, .send [0, 8], .read 3, .drop, .write, .recv, .read 2, .flush,
    .read 3, .read 1, .recv, .close, .readEnd]

theorem connection_resumes_spoilt : ∃ (link : FramedLink CobsFramer) (log : List Event),
    Resumes Cobs.reference [1, 2] link log ∧ sentIn log = [[7], [0, 8]] ∧
      returnedIn log = [.ok [0, 8]] ∧ .ended ∈ log := by
  let sizes : ChunkSizes := ⟨3, 4, by decide, by decide⟩
  let receiver : CobsFramer := ⟨[5], true, 8⟩
  have permits : Permits (FramedLink.step (framing Cobs.reference) sizes)
      (Offers (Fits Cobs.reference 8)) (.joined new [1, 2] receiver) spoilt := by decide +kernel
  obtain ⟨outcome, same, held⟩ := Option.any_eq_true .. |>.mp
    (show (replay (FramedLink.step (framing Cobs.reference) sizes)
      (.joined new [1, 2] receiver) spoilt).any
      (fun outcome => decide (sentIn outcome.2 = [[7], [0, 8]] ∧
        returnedIn outcome.2 = [.ok [0, 8]] ∧ .ended ∈ outcome.2)) = true by decide +kernel)
  have reached := Reaches.start.replay permits same
  exact ⟨_, _, connection_resumes Cobs.reference sizes new receiver [1, 2] reached,
    of_decide_eq_true held⟩

end CobsFramer

end AimDb.Serial
