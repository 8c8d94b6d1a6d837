import AimDb.Json.Text
import AimDb.Layout.Cells

/-!
# Length-prefix frames over a TCP stream

A frame is a four-byte big-endian length and that many bytes.  The accumulator
takes chunks of any size; without a delimiter to resync on, a header that
declares too much empties it.
-/

namespace AimDb.Tcp

open AimDb.Json (Bytes)
open AimDb.Layout (leBytes leValue)

/-- Number of bytes in the fixed frame header. -/
def HEADER_LEN : ℕ := 4

inductive FrameError where
  | tooLarge
  /-- Header plus payload length does not fit the pointer width. -/
  | lengthOverflow
  deriving DecidableEq

inductive FrameFault where
  | recoverable
  | fatal
  deriving DecidableEq

/-- The target's `usize`, which a `u32` fits. -/
structure Usize where
  bits : ℕ
  holdsHeader : 32 ≤ bits

namespace Usize

def max (usize : Usize) : ℕ := 2 ^ usize.bits - 1

/-- `n as usize` -/
def cast (usize : Usize) (n : ℕ) : ℕ := n % 2 ^ usize.bits

/-- What a slice can hold: its length is at most `isize::MAX`. -/
abbrev Slice (usize : Usize) : Type := { bytes : Bytes // bytes.length < 2 ^ (usize.bits - 1) }

end Usize

/-- `len.to_be_bytes()` -/
def beBytes (len : ℕ) : Bytes := (leBytes HEADER_LEN len).reverse

/-- `u32::from_be_bytes` of the first four bytes. -/
def declared (buf : Bytes) : ℕ := leValue (buf.take HEADER_LEN).reverse

/-- Append one length-prefixed frame to `out`. -/
def encodeFrame (frame out : Bytes) : Except FrameError Unit × Bytes :=
  if frame.length < 2 ^ 32 then (.ok (), out ++ beBytes frame.length ++ frame)
  else (.error .lengthOverflow, out)

structure FrameAccumulator where
  buf : Bytes
  maxFrame : ℕ
  deriving DecidableEq

namespace FrameAccumulator

def withMaxFrame (maxFrame : ℕ) : FrameAccumulator := ⟨[], maxFrame⟩

def pushBytes (acc : FrameAccumulator) (bytes : Bytes) : FrameAccumulator :=
  { acc with buf := acc.buf ++ bytes }

def nextFrame (usize : Usize) (acc : FrameAccumulator) :
    Option (Except FrameError Bytes) × FrameAccumulator :=
  if acc.buf.length < HEADER_LEN then (none, acc)
  else
    let len := usize.cast (declared acc.buf)
    if acc.maxFrame < len then (some (.error .tooLarge), { acc with buf := [] })
    else if usize.max < HEADER_LEN + len then
      (some (.error .lengthOverflow), { acc with buf := [] })
    else if acc.buf.length < HEADER_LEN + len then (none, acc)
    else
      let body := acc.buf.drop HEADER_LEN
      (some (.ok (body.take len)), { acc with buf := body.drop len })

end FrameAccumulator

structure LengthFramer where
  acc : FrameAccumulator
  maxFrame : ℕ
  deriving DecidableEq

namespace LengthFramer

def withMaxFrame (maxFrame : ℕ) : LengthFramer := ⟨.withMaxFrame maxFrame, maxFrame⟩

/-- An oversized frame is dropped whole rather than written half-encoded. -/
def encode (framer : LengthFramer) (frame out : Bytes) : Except FrameFault Unit × Bytes :=
  if framer.maxFrame < frame.length then (.error .recoverable, out)
  else
    match encodeFrame frame out with
    | (.ok (), out) => (.ok (), out)
    | (.error _, out) => (.error .recoverable, out)

def pushBytes (framer : LengthFramer) (bytes : Bytes) : LengthFramer :=
  { framer with acc := framer.acc.pushBytes bytes }

def nextFrame (usize : Usize) (framer : LengthFramer) :
    Option (Except FrameFault Bytes) × LengthFramer :=
  match framer.acc.nextFrame usize with
  | (none, acc) => (none, { framer with acc := acc })
  | (some (.ok frame), acc) => (some (.ok frame), { framer with acc := acc })
  | (some (.error _), acc) => (some (.error .fatal), { framer with acc := acc })

end LengthFramer

end AimDb.Tcp
