import AimDb.BuildInfo
import AimDb.Hex
import AimDb.Json.Text
import AimDb.Session.Messages

/-!
# Reading the post-link region from afar

A server answers `instance.post_link` with one chunk of its written region; a client
asks for chunk after chunk until it holds as many bytes as the first one announced.
-/

namespace AimDb.Remote

open BuildInfo (Section PostLink Usize sectionMax)
open Json (Bytes Value utf8 IsPlain)
open Hex (hex)
open Session (RpcError)

def postLinkChunkMax : UInt32 := 1024

structure PostLinkChunk where
  offset : UInt32
  total : UInt32
  data : String
  deriving DecidableEq, Repr

/-- What both ends rely on in their JSON library. -/
structure Serde where
  asU64 : String → Option UInt64
  toVec : PostLinkChunk → Bytes
  fromSlice : Bytes → Option PostLinkChunk
  asU64_toString : ∀ n : UInt64, asU64 (toString n) = some n
  fromSlice_toVec : ∀ chunk, IsPlain chunk.data → fromSlice (toVec chunk) = some chunk

variable (serde : Serde)

inductive PostLinkError where
  | notWritten
  | invalidParams
  deriving DecidableEq, Repr

def u32OfU64 (n : UInt64) : Option UInt32 := if n.toNat < 2 ^ 32 then some n.toUInt32 else none

def field (params : Value) (key : String) : Except PostLinkError (Option UInt32) :=
  match params.get key with
  | none => .ok none
  | some (.number text) =>
      match (serde.asU64 text).bind u32OfU64 with
      | some n => .ok (some n)
      | none => .error .invalidParams
  | some _ => .error .invalidParams

/-- `offset` and `len`; a missing offset is 0. -/
def postLinkParams (params : Value) : Except PostLinkError (UInt32 × Option UInt32) :=
  match params with
  | .null => .ok (0, none)
  | .object _ => do
      let offset ← field serde params "offset"
      let len ← field serde params "len"
      return (offset.getD 0, len)
  | _ => .error .invalidParams

def postLinkChunkReply (usize : Usize) (buildInfo : Option Section) (params : Value) :
    Except PostLinkError Bytes := do
  let (offset, len) ← postLinkParams serde params
  match buildInfo.map (Section.postLink usize) with
  | some (.written data) =>
      let len := min (len.getD postLinkChunkMax) postLinkChunkMax
      let start := min (usize.cast offset.toNat) data.length
      let stop := min (start + usize.cast len.toNat) data.length
      return serde.toVec ⟨offset, data.length.toUInt32,
        hex ((data.drop start).take (stop - start))⟩
  | _ => .error .notWritten

/-- The dispatch's answer on the wire. -/
def postLinkReply (usize : Usize) (buildInfo : Option Section) (params : Value) :
    Except RpcError Bytes :=
  match postLinkChunkReply serde usize buildInfo params with
  | .ok reply => .ok reply
  | .error .notWritten => .error .notFound
  | .error .invalidParams => .error .internal

inductive ClientError where
  | serverError (code message : String)
  | json
  | other (message : String)
  deriving DecidableEq, Repr

def malformedChunk (why : String) : ClientError :=
  .other s!"malformed instance.post_link reply: {why}"

def rpcErr : RpcError → ClientError
  | .notFound => .serverError "not_found" "method or record not found"
  | .denied => .serverError "denied" "permission denied"
  | _ => .serverError "internal" "engine/transport failure"

def decodeHex (text : Bytes) : Except ClientError Bytes :=
  if text.length % 2 ≠ 0 then .error (malformedChunk "odd-length hex")
  else
    match Hex.unhexPairs text with
    | some bytes => .ok bytes
    | none => .error (malformedChunk "data is not hex")

/-- The bytes of a chunk read at `offset`, if it fits a download of `total` bytes. -/
def checkChunk (chunk : PostLinkChunk) (offset : ℕ) (total : UInt32) : Except ClientError Bytes :=
  if sectionMax ≤ total.toNat then
    .error (malformedChunk
      s!"a total of {total} bytes, more than a build-info section holds")
  else if chunk.total ≠ total then
    .error (malformedChunk s!"the total changed from {total} to {chunk.total} bytes")
  else if chunk.offset.toNat ≠ offset then
    .error (malformedChunk
      s!"a chunk at offset {chunk.offset} where {offset} was asked for")
  else if 2 * postLinkChunkMax.toNat < (utf8 chunk.data).length then
    .error (malformedChunk (s!"a chunk of {(utf8 chunk.data).length} hex digits, " ++
      s!"more than the {postLinkChunkMax} bytes asked for"))
  else do
    let bytes ← decodeHex (utf8 chunk.data)
    -- the loop never asks past the total, so this is no underflow
    let remaining := total.toNat - offset
    if remaining < bytes.length then
      .error (malformedChunk s!"{bytes.length} bytes at offset {offset}, past the total of {total}")
    else if bytes = [] ∧ 0 < remaining then
      .error (malformedChunk "an empty chunk before the end")
    else return bytes

structure Download where
  data : Bytes
  total : Option UInt32
  deriving DecidableEq, Repr

def Download.params (download : Download) : Value :=
  .object [("offset", .number (toString download.data.length.toUInt64)),
    ("len", .number (toString postLinkChunkMax.toUInt64))]

inductive Progress where
  | returned (result : Except ClientError (Option Bytes))
  | again (download : Download)

def Download.step (download : Download) : Except RpcError Bytes → Progress
  | .error .notFound => .returned (.ok none)
  | .error e => .returned (.error (rpcErr e))
  | .ok reply =>
      match serde.fromSlice reply with
      | none => .returned (.error .json)
      | some chunk =>
          let total := download.total.getD chunk.total
          match checkChunk chunk download.data.length total with
          | .error e => .returned (.error e)
          | .ok bytes =>
              let data := download.data ++ bytes
              if data.length = total.toNat then .returned (.ok (some data))
              else .again ⟨data, some total⟩

/-- A peer answers the `asked`-th call however it likes. -/
abbrev Peer := (asked : ℕ) → Value → Except RpcError Bytes

def fetch (peer : Peer) :
    (fuel asked : ℕ) → Download → Option (Except ClientError (Option Bytes))
  | 0, _, _ => none
  | fuel + 1, asked, download =>
      match download.step serde (peer asked download.params) with
      | .returned result => some result
      | .again download => fetch peer fuel (asked + 1) download

def postLink (peer : Peer) (fuel : ℕ) : Option (Except ClientError (Option Bytes)) :=
  fetch serde peer fuel 0 ⟨[], none⟩

end AimDb.Remote
