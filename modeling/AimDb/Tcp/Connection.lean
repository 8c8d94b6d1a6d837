import AimDb.Session.Io.Delivered
import AimDb.Tcp.Chunks

/-!
# Connections over TCP

A length-prefix framer on either end of a byte stream.
-/

namespace AimDb.Tcp

open AimDb.Framing
open AimDb.Json (Bytes)
open AimDb.Session.Io
open AimDb.Transition

namespace LengthFramer

variable {usize : Usize} {maxFrame : ℕ}

def framing (usize : Usize) : Framer LengthFramer where
  encode := encode
  pushBytes := pushBytes
  nextFrame := nextFrame usize
  held framer := framer.acc.buf.length
  shrinks := nextFrame_shrinks

def Sliced (usize : Usize) (frame : Bytes) : Prop := frame.length < 2 ^ (usize.bits - 1)

instance : DecidablePred (Sliced usize) := fun _ => inferInstanceAs (Decidable (_ < _))

theorem encode_sliced {frame : Bytes} (sliced : Sliced usize frame) :
    Fits usize maxFrame frame ∧ (withMaxFrame maxFrame).encode frame [] = (.ok (), wire frame) ∨
      ∃ fault, (withMaxFrame maxFrame).encode frame [] = (.error fault, []) := by
  rcases (withMaxFrame maxFrame).encode_spec frame [] with
    ⟨small, declarable, encoded⟩ | ⟨_, encoded⟩
  · exact .inl ⟨⟨small, declarable, usize.holds_frame ⟨frame, sliced⟩⟩, encoded⟩
  · exact .inr ⟨_, encoded⟩

theorem nextFrame_front {buf tail : Bytes} {frames : List Bytes}
    (carried : ∀ frame ∈ frames, Fits usize maxFrame frame)
    (stream : buf ++ tail = frames.flatMap wire) :
    (((withMaxFrame maxFrame).holding buf).nextFrame usize =
        (none, (withMaxFrame maxFrame).holding buf) ∧
      ∀ frame ∈ frames.head?, buf.length < (wire frame).length) ∨
    ∃ frame left rest, frames = frame :: left ∧ buf = wire frame ++ rest ∧
      ((withMaxFrame maxFrame).holding buf).nextFrame usize =
        (some (.ok frame), (withMaxFrame maxFrame).holding rest) := by
  cases frames with
  | nil =>
      obtain ⟨rfl, rfl⟩ := List.append_eq_nil_iff.mp stream
      exact .inl ⟨rfl, by simp⟩
  | cons frame left =>
      have piece : (lengthPrefix usize maxFrame).Piece (wire frame) :=
        (carried frame List.mem_cons_self).piece
      rw [List.flatMap_cons] at stream
      by_cases short : buf.length < (wire frame).length
      · have seen := Measure.look_of_short piece stream short
        exact .inl ⟨nextFrame_of_none _ seen, by simpa using short⟩
      · obtain ⟨rest, rfl⟩ : wire frame <+: buf :=
          List.prefix_of_prefix_length_le ⟨_, stream.symm⟩ (List.prefix_append buf tail)
            (Nat.le_of_not_lt short)
        have seen := (lengthPrefix usize maxFrame).stable _ rest _ piece
        have taken := ((withMaxFrame maxFrame).holding (wire frame ++ rest)).nextFrame_of_ok seen
        have front : ((wire frame ++ rest).take (wire frame).length).drop HEADER_LEN = frame := by
          rw [List.take_left, wire, List.drop_left' (length_beBytes _)]
        have behind : (wire frame ++ rest).drop (wire frame).length = rest := List.drop_left
        refine .inr ⟨frame, left, rest, rfl, rfl, ?_⟩
        rw [taken]
        simp only [holding]
        rw [front, behind]

def contract (usize : Usize) (maxFrame : ℕ) :
    Contract (framing usize) (withMaxFrame maxFrame) (Sliced usize) where
  wire := wire
  Carried := Fits usize maxFrame
  Holds framer buf := framer = (withMaxFrame maxFrame).holding buf
  encodes _ sliced := encode_sliced sliced
  starts := rfl
  pushes bytes holding := by
    rw [holding]
    rfl
  takes := by
    rintro state buf frames tail rfl carried stream
    rcases nextFrame_front carried stream with
      ⟨called, short⟩ | ⟨frame, left, rest, same, split, called⟩
    · exact .inl ⟨_, called, rfl, short⟩
    · exact .inr ⟨frame, left, rest, _, same, split, called, rfl⟩

/-- On a connection between two ends with one bound, whatever is sent, however the
stream is cut and wherever it breaks. -/
theorem connection_delivers (usize : Usize) (maxFrame : ℕ) (sizes : ChunkSizes)
    {link : FramedLink LengthFramer} {log : List Event}
    (reached : Reaches (FramedLink.step (framing usize) sizes) (Offers (Sliced usize))
      (.new (withMaxFrame maxFrame)) link log) :
    Delivers wire link log :=
  (contract usize maxFrame).delivers_of_reaches reached

/-- Two frames and one that is too long, through writes of four bytes and reads of
three. -/
def chunked : List Input :=
  [.send [7, 8], .recv, .write, .read 3, .write, .read 3, .flush, .send [0, 0, 0, 0, 0, 0],
    .send [], .write, .recv, .flush, .close, .read 3, .drop, .recv, .read 1, .recv, .readEnd]

theorem connection_delivers_chunked : ∃ (link : FramedLink LengthFramer) (log : List Event),
    Delivers wire link log ∧ returnedIn log = [.ok [7, 8], .ok []] ∧ .ended ∈ log := by
  let usize : Usize := ⟨64, by decide⟩
  let sizes : ChunkSizes := ⟨3, 4, by decide, by decide⟩
  have permits : Permits (FramedLink.step (framing usize) sizes) (Offers (Sliced usize))
      (.new (withMaxFrame 5)) chunked := by decide +kernel
  obtain ⟨outcome, same, held⟩ := Option.any_eq_true .. |>.mp
    (show (replay (FramedLink.step (framing usize) sizes) (.new (withMaxFrame 5)) chunked).any
      (fun outcome => decide (returnedIn outcome.2 = [.ok [7, 8], .ok []] ∧
        .ended ∈ outcome.2)) =
        true by decide +kernel)
  have reached := Reaches.start.replay permits same
  exact ⟨_, _, connection_delivers usize 5 sizes reached, of_decide_eq_true held⟩

end LengthFramer

end AimDb.Tcp
