import AimDb.Framing.Cobs
import AimDb.Framing.Delimited

/-!
# COBS frame boundaries over an unframed serial byte stream

A frame is stuffed so that it holds no zero, and a zero marks its end.  The
accumulator collects chunks of any size and hands out the frames they complete.
-/

namespace AimDb.Serial

open AimDb.Framing
open AimDb.Json (Bytes)

structure FrameError where
  deriving DecidableEq

/-- The byte that never appears inside an encoded frame. -/
def DELIM : UInt8 := 0

/-- Encode `payload` with its delimiter, appending to `out`. -/
def encodeFrame (cobs : Cobs) (payload out : Bytes) : Bytes := out ++ cobs.encode payload ++ [DELIM]

structure FrameAccumulator where
  buf : Bytes
  /-- The bytes still arriving are the tail of a dropped run. -/
  resyncing : Bool
  maxFrame : ℕ
  deriving DecidableEq

namespace FrameAccumulator

def withMaxFrame (maxFrame : ℕ) : FrameAccumulator := ⟨[], false, maxFrame⟩

def pushBytes (acc : FrameAccumulator) (data : Bytes) : FrameAccumulator :=
  { acc with buf := acc.buf ++ data }

/-- Pop the next complete frame.  A turn that goes round again has taken a
delimiter. -/
def nextFrame (cobs : Cobs) (acc : FrameAccumulator) :
    Option (Except FrameError Bytes) × FrameAccumulator :=
  match _ : cut DELIM acc.buf with
  | none =>
      -- no boundary: all of it is the tail of a dropped run, or it is bounded
      if acc.resyncing then (none, { acc with buf := [] })
      else if acc.maxFrame < acc.buf.length then
        (some (.error ⟨⟩), { acc with buf := [], resyncing := true })
      else (none, acc)
  | some (encoded, rest) =>
      if acc.resyncing then nextFrame cobs { acc with buf := rest, resyncing := false }
      -- a leading or duplicate delimiter is not a frame
      else if encoded = [] then nextFrame cobs { acc with buf := rest }
      else
        match cobs.decode encoded with
        | some frame => (some (.ok frame), { acc with buf := rest })
        | none => (some (.error ⟨⟩), { acc with buf := rest })
termination_by acc.buf.length
decreasing_by all_goals exact length_of_cut ‹_›

variable {cobs : Cobs} {acc : FrameAccumulator}

theorem nextFrame_shrinks {result : Except FrameError Bytes} {after : FrameAccumulator}
    (called : nextFrame cobs acc = (some result, after)) : after.buf.length < acc.buf.length := by
  fun_induction nextFrame cobs acc with
  | case1 acc split resyncing => simp at called
  | case2 acc split aligned long =>
      obtain ⟨-, rfl⟩ := Prod.mk.inj called
      simp
      omega
  | case3 acc split aligned short => simp at called
  | case4 acc encoded rest split resyncing inductionHypothesis =>
      exact (inductionHypothesis called).trans (length_of_cut split)
  | case5 acc rest aligned split inductionHypothesis =>
      exact (inductionHypothesis called).trans (length_of_cut split)
  | case6 acc encoded rest split aligned nonempty frame decoded =>
      obtain ⟨-, rfl⟩ := Prod.mk.inj called
      exact length_of_cut split
  | case7 acc encoded rest split aligned nonempty undecoded =>
      obtain ⟨-, rfl⟩ := Prod.mk.inj called
      exact length_of_cut split

/-- Call `nextFrame` until it has nothing to hand out. -/
def drain (cobs : Cobs) (acc : FrameAccumulator) :
    List (Except FrameError Bytes) × FrameAccumulator :=
  match _ : nextFrame cobs acc with
  | (none, after) => ([], after)
  | (some result, after) =>
      let drained := drain cobs after
      (result :: drained.1, drained.2)
termination_by acc.buf.length
decreasing_by exact nextFrame_shrinks ‹_›

def receive (cobs : Cobs) (acc : FrameAccumulator) :
    List Bytes → List (Except FrameError Bytes) × FrameAccumulator
  | [] => ([], acc)
  | chunk :: chunks =>
      let drained := drain cobs (acc.pushBytes chunk)
      let received := receive cobs drained.2 chunks
      (drained.1 ++ received.1, received.2)

def frames (results : List (Except FrameError Bytes)) : List Bytes :=
  results.filterMap fun
    | .ok frame => some frame
    | .error _ => none

end FrameAccumulator

end AimDb.Serial
