import AimDb.Tcp.Framing
import AimDb.Transition.Runs

/-!
# Framed connections over a byte stream

A framer turns frames into bytes and bytes back into frames.  A connection
writes a frame in pieces that the stream takes, and reads what has come in until
its framer has a frame to hand out.  One direction of a connection is a sender,
the bytes under way and a receiver; the environment says how much a read brings,
where the link breaks and which futures are dropped.
-/

namespace AimDb.Session.Io

open AimDb.Json (Bytes)
open AimDb.Tcp (FrameFault)
open AimDb.Transition

variable {σ : Type*}

/-- Frames a byte stream.  A call that hands something out has used up bytes. -/
structure Framer (σ : Type*) where
  encode : σ → Bytes → Bytes → Except FrameFault Unit × Bytes
  pushBytes : σ → Bytes → σ
  nextFrame : σ → Option (Except FrameFault Bytes) × σ
  held : σ → ℕ
  shrinks : ∀ {state result after}, nextFrame state = (some result, after) →
    held after < held state

/-- How much one `read` and one `write_all` move at most. -/
structure ChunkSizes where
  read : ℕ
  write : ℕ
  read_pos : 0 < read
  write_pos : 0 < write

/-- A `send` future: its frame, and the bytes that are not written yet. -/
structure Sending where
  frame : Bytes
  left : Bytes
  deriving DecidableEq

structure FramedLink (σ : Type*) where
  sender : σ
  sending : Option Sending
  closed : Bool
  /-- The stream has failed; it takes nothing more. -/
  severed : Bool
  wire : Bytes
  receiver : σ
  /-- A `recv` future waits for a read. -/
  reading : Bool
  deriving DecidableEq

inductive Input where
  | send (frame : Bytes)
  /-- One `write_all` of the send under way. -/
  | write
  | flush
  /-- The stream fails: of what is under way, `kept` bytes still arrive. -/
  | sever (kept : ℕ)
  /-- The send under way gets the stream's error. -/
  | sendError
  | close
  | recv
  | read (count : ℕ)
  | readEnd
  | readError
  /-- The `recv` future is dropped. -/
  | drop

inductive Event where
  | accepted (frame : Bytes)
  | rejected (frame : Bytes)
  /-- A `send` has returned `Ok`. -/
  | sent (frame : Bytes)
  | sendFailed
  | severed
  | read (bytes : Bytes)
  /-- A `recv` has returned a frame, or failed for the bytes it was brought. -/
  | returned (result : Except FrameFault Bytes)
  | ended
  | readFailed
  deriving DecidableEq

namespace Framer

/-- Call `nextFrame` until it hands out a frame, a fatal fault or nothing. -/
def pull (framer : Framer σ) (state : σ) : Option (Except FrameFault Bytes) × σ :=
  match _ : framer.nextFrame state with
  | (none, after) => (none, after)
  | (some (.ok frame), after) => (some (.ok frame), after)
  | (some (.error .recoverable), after) => framer.pull after
  | (some (.error .fatal), after) => (some (.error .fatal), after)
termination_by framer.held state
decreasing_by exact framer.shrinks ‹_›

variable {framer : Framer σ} {state after : σ}

theorem pull_of_none (called : framer.nextFrame state = (none, after)) :
    framer.pull state = (none, after) := by
  rw [pull]
  split <;> next found => rw [called] at found; cases found <;> rfl

theorem pull_of_frame {frame : Bytes}
    (called : framer.nextFrame state = (some (.ok frame), after)) :
    framer.pull state = (some (.ok frame), after) := by
  rw [pull]
  split <;> next found => rw [called] at found; cases found <;> rfl

theorem pull_of_recoverable
    (called : framer.nextFrame state = (some (.error .recoverable), after)) :
    framer.pull state = framer.pull after := by
  rw [pull]
  split <;> next found => rw [called] at found; cases found <;> rfl

end Framer

namespace FramedLink

/-- A receiver in any state joins a stream with any bytes under way. -/
def joined (sender : σ) (wire : Bytes) (receiver : σ) : FramedLink σ :=
  ⟨sender, none, false, false, wire, receiver, false⟩

def new (start : σ) : FramedLink σ := joined start [] start

/-- The turns of `recv` until it returns or needs a read. -/
def turn (framer : Framer σ) (link : FramedLink σ) : FramedLink σ × List Event :=
  let pulled := framer.pull link.receiver
  ({ link with receiver := pulled.2, reading := pulled.1.isNone },
    pulled.1.toList.map .returned)

/-- What the write under way would bring. -/
def offered (sizes : ChunkSizes) (link : FramedLink σ) : Bytes :=
  (link.sending.elim [] Sending.left).take sizes.write

def step (framer : Framer σ) (sizes : ChunkSizes) (link : FramedLink σ) :
    Input → Option (FramedLink σ × List Event)
  | .send frame =>
      if link.closed ∨ link.sending ≠ none then none
      else
        match framer.encode link.sender frame [] with
        | (.ok (), out) => some ({ link with sending := some ⟨frame, out⟩ }, [.accepted frame])
        | (.error _, _) => some (link, [.rejected frame])
  | .write =>
      match link.sending with
      | none => none
      | some sending =>
          if link.severed ∨ sending.left = [] then none
          else
            some ({ link with
              sending := some ⟨sending.frame, sending.left.drop sizes.write⟩
              wire := link.wire ++ sending.left.take sizes.write }, [])
  | .flush =>
      match link.sending with
      | none => none
      | some sending =>
          if link.severed ∨ sending.left ≠ [] then none
          else some ({ link with sending := none }, [.sent sending.frame])
  | .sever kept =>
      if link.severed then none
      else
        some ({ link with
          severed := true
          wire := (link.wire ++ link.offered sizes).take kept }, [.severed])
  | .sendError =>
      if link.severed ∧ link.sending ≠ none then
        some ({ link with sending := none }, [.sendFailed])
      else none
  | .close =>
      if link.closed then none else some ({ link with closed := true, sending := none }, [])
  | .recv => if link.reading then none else some (link.turn framer)
  | .read count =>
      if ¬link.reading ∨ count = 0 ∨ sizes.read < count ∨ link.wire.length < count then none
      else
        let turned := { link with
          wire := link.wire.drop count
          receiver := framer.pushBytes link.receiver (link.wire.take count) }.turn framer
        some (turned.1, .read (link.wire.take count) :: turned.2)
  | .readEnd =>
      if link.reading ∧ link.wire = [] ∧ (link.closed ∨ link.severed) then
        some ({ link with reading := false }, [.ended])
      else none
  | .readError =>
      if link.reading ∧ link.severed then some ({ link with reading := false }, [.readFailed])
      else none
  | .drop => if link.reading then some ({ link with reading := false }, []) else none

end FramedLink

def acceptedIn (log : List Event) : List Bytes :=
  log.filterMap fun
    | .accepted frame => some frame
    | _ => none

def sentIn (log : List Event) : List Bytes :=
  log.filterMap fun
    | .sent frame => some frame
    | _ => none

def returnedIn (log : List Event) : List (Except FrameFault Bytes) :=
  log.filterMap fun
    | .returned result => some result
    | _ => none

def readIn (log : List Event) : Bytes :=
  log.flatMap fun
    | .read bytes => bytes
    | _ => []

end AimDb.Session.Io
