import AimDb.Transition.Runs
import Mathlib.Algebra.Group.Nat.Defs
import Mathlib.Logic.Basic

/-!
# The frame funnel of the browser bridge

Text frames arrive in callbacks of the page and queue up for `recv`.  A frame past a limit ends
the stream: `recv` then reports its end instead of draining.
-/

namespace AimDb.Wasm.Funnel

def frameQueueCap : ℕ := 1024

def maxFrameBytes : ℕ := 1024 * 1024

def frameQueueBytes : ℕ := 8 * 1024 * 1024

/-- `usize` has 32 bits here. -/
def saturatingAdd (a b : ℕ) : ℕ := min (a + b) (2 ^ 32 - 1)

abbrev Frame := List UInt8

abbrev JsString := List UInt16

def isHigh (unit : UInt16) : Bool := decide (0xD800 ≤ unit ∧ unit < 0xDC00)

def isLow (unit : UInt16) : Bool := decide (0xDC00 ≤ unit ∧ unit < 0xE000)

def joined (high low : UInt16) : Char :=
  Char.ofNat (0x10000 + (high.toNat - 0xD800) * 0x400 + (low.toNat - 0xDC00))

def chars : JsString → List Char
  | [] => []
  | [unit] => if isHigh unit || isLow unit then ['\uFFFD'] else [Char.ofNat unit.toNat]
  | unit :: next :: rest =>
      if isHigh unit then
        if isLow next then joined unit next :: chars rest else '\uFFFD' :: chars (next :: rest)
      else if isLow unit then '\uFFFD' :: chars (next :: rest)
      else Char.ofNat unit.toNat :: chars (next :: rest)

/-- `String::from(text).into_bytes()` -/
def intoBytes (text : JsString) : Frame := (chars text).flatMap String.utf8EncodeChar

/-- A bounded channel of `futures_channel` with one sender at work, which has a slot beyond the
capacity. -/
structure Channel where
  queue : List Frame := []
  isClosed : Bool := false
  deriving DecidableEq, Repr

inductive TrySendError
  | full
  | disconnected

inductive Polled
  | pending
  | ready (frame : Option Frame)

namespace Channel

variable (frames : Channel)

/-- The sender took its own slot last and is parked, or the channel has room. -/
def trySend (frame : Frame) : Except TrySendError Channel :=
  if frameQueueCap < frames.queue.length then .error .full
  else if frames.isClosed then .error .disconnected
  else .ok { frames with queue := frames.queue ++ [frame] }

def closeChannel : Channel := { frames with isClosed := true }

def pollNext : Polled × Channel :=
  match frames.queue with
  | frame :: queue => (.ready (some frame), { frames with queue })
  | [] => (if frames.isClosed then .ready none else .pending, frames)

end Channel

structure FunnelState where
  queuedBytes : ℕ := 0
  overflowed : Bool := false
  deriving DecidableEq, Repr

inductive Funneled
  | accepted
  | overflowed
  | oversize
  | closed
  deriving DecidableEq, Repr

structure WasmWsConnection where
  frames : Channel := {}
  funnel : FunnelState := {}
  /-- A `recv` is past its check and waits for a frame. -/
  parked : Bool := false
  deriving DecidableEq, Repr

inductive Event
  | arrived (frame : Frame) (verdict : Funneled)
  | closed
  | returned (answer : Option Frame)
  deriving DecidableEq, Repr

inductive Action
  /-- `onmessage` with a text. -/
  | message (text : JsString)
  /-- `onclose` -/
  | close
  /-- `recv` is polled, a new one where none waits. -/
  | poll
  /-- The `recv` that waits is dropped. -/
  | drop

namespace WasmWsConnection

variable (s : WasmWsConnection)

def overflow : WasmWsConnection :=
  { s with frames := s.frames.closeChannel, funnel := { s.funnel with overflowed := true } }

def funnelFrame (frame : Frame) : WasmWsConnection × Funneled :=
  if s.frames.isClosed then (s, .closed)
  else
    let queued := s.funnel.queuedBytes
    if saturatingAdd queued frame.length > frameQueueBytes then (s.overflow, .overflowed)
    else
      match s.frames.trySend frame with
      | .ok frames =>
          ({ s with frames, funnel := { s.funnel with queuedBytes := queued + frame.length } },
            .accepted)
      | .error .full => (s.overflow, .overflowed)
      | .error .disconnected => (s, .closed)

/-- The length in code units is read first, so that no text past the ceiling is copied. -/
def funnelText (text : JsString) : WasmWsConnection × Funneled :=
  if s.frames.isClosed then (s, .closed)
  else
    match if text.length ≤ maxFrameBytes then some (intoBytes text) else none with
    | some frame =>
        if frame.length ≤ maxFrameBytes then s.funnelFrame frame else (s.overflow, .oversize)
    | none => (s.overflow, .oversize)

/-- Past the check of `overflowed`, `recv` awaits the next frame. -/
def awaitNext : WasmWsConnection × List Event :=
  match s.frames.pollNext with
  | (.pending, frames) => ({ s with frames, parked := true }, [])
  | (.ready none, frames) => ({ s with frames, parked := false }, [.returned none])
  | (.ready (some frame), frames) =>
      let queued := s.funnel.queuedBytes
      ({ frames, parked := false,
         funnel := { s.funnel with queuedBytes := queued - frame.length } },
        [.returned (some frame)])

def recv : WasmWsConnection × List Event :=
  if !s.parked && s.funnel.overflowed then (s, [.returned none]) else s.awaitNext

end WasmWsConnection

def step (s : WasmWsConnection) : Action → Option (WasmWsConnection × List Event)
  | .message text =>
      let (after, verdict) := s.funnelText text
      some (after, [.arrived (intoBytes text) verdict])
  | .close => some ({ s with frames := s.frames.closeChannel }, [.closed])
  | .poll => some s.recv
  | .drop => some ({ s with parked := false }, [])

end AimDb.Wasm.Funnel
