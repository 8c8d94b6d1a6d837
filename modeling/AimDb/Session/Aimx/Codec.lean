import AimDb.Session.Aimx.SerdeJson
import AimDb.Session.Messages

/-!
# The AimX NDJSON envelope codec

One flat, all-optional frame carries every message.  Both directions go through
it: each logical message fills the fields its tag implies, and the rest is
neither written nor required.
-/

namespace AimDb.Session.Aimx

open AimDb.Json

structure Frame where
  t : String
  id : Option UInt64
  seq : Option UInt64
  last : Option Bool
  method : Option String
  topic : Option String
  sub : Option String
  ts : Option UInt64
  params : Option Bytes
  payload : Option Bytes
  data : Option Bytes
  ok : Option Bytes
  err : Option String
  deriving DecidableEq

namespace Frame

/-- An empty frame with only the tag set; fill the relevant fields after. -/
def tagged (t : String) : Frame :=
  { t, id := none, seq := none, last := none, method := none, topic := none, sub := none,
    ts := none, params := none, payload := none, data := none, ok := none, err := none }

variable (json : SerdeJson)

def optionalMember {α : Type} (key : String) (write : α → Bytes) (field : Option α) :
    List (String × Bytes) :=
  field.toList.map fun value => (key, write value)

/-- A `RawValue` is written as it is. -/
def verbatim (raw : Bytes) : Bytes := raw

def members (frame : Frame) : List (String × Bytes) :=
  [("t", json.quoted frame.t)]
    ++ optionalMember "id" (fun n : UInt64 => decimal n.toNat) frame.id
    ++ optionalMember "seq" (fun n : UInt64 => decimal n.toNat) frame.seq
    ++ optionalMember "last" boolean frame.last
    ++ optionalMember "method" json.quoted frame.method
    ++ optionalMember "topic" json.quoted frame.topic
    ++ optionalMember "sub" json.quoted frame.sub
    ++ optionalMember "ts" (fun n : UInt64 => decimal n.toNat) frame.ts
    ++ optionalMember "params" verbatim frame.params
    ++ optionalMember "payload" verbatim frame.payload
    ++ optionalMember "data" verbatim frame.data
    ++ optionalMember "ok" verbatim frame.ok
    ++ optionalMember "err" json.quoted frame.err

/-- `serde_json::to_vec`. -/
def toVec (frame : Frame) : Bytes := objectText (frame.members json)

/-- An optional field: absent and `null` both read as `None`. -/
def readOptional {α : Type} (members : List (String × Bytes)) (key : String)
    (read : Bytes → Option α) : Option (Option α) :=
  match members.lookup key with
  | none => some none
  | some text => if text = utf8 "null" then some none else (read text).map some

def readRequired {α : Type} (members : List (String × Bytes)) (key : String)
    (read : Bytes → Option α) : Option α :=
  (members.lookup key).bind read

/-- The names the derived visitor knows; any other member is ignored. -/
def fieldNames : List String :=
  ["t", "id", "seq", "last", "method", "topic", "sub", "ts", "params", "payload", "data", "ok",
    "err"]

def DistinctFields (members : List (String × Bytes)) : Prop :=
  ((members.map Prod.fst).filter (· ∈ fieldNames)).Nodup

instance (members : List (String × Bytes)) : Decidable (DistinctFields members) :=
  inferInstanceAs (Decidable (List.Nodup _))

def ofMembers (members : List (String × Bytes)) : Option Frame := do
  guard (DistinctFields members)
  let t ← readRequired members "t" json.borrowedStr
  let id ← readOptional members "id" json.u64
  let seq ← readOptional members "seq" json.u64
  let last ← readOptional members "last" json.bool
  let method ← readOptional members "method" json.borrowedStr
  let topic ← readOptional members "topic" json.borrowedStr
  let sub ← readOptional members "sub" json.borrowedStr
  let ts ← readOptional members "ts" json.u64
  let params ← readOptional members "params" json.rawValue
  let payload ← readOptional members "payload" json.rawValue
  let data ← readOptional members "data" json.rawValue
  let ok ← readOptional members "ok" json.rawValue
  let err ← readOptional members "err" json.borrowedStr
  some { t, id, seq, last, method, topic, sub, ts, params, payload, data, ok, err }

/-- `serde_json::from_slice::<Frame>`. -/
def fromSlice (bytes : Bytes) : Except CodecError Frame :=
  match (json.object bytes).bind (ofMembers json) with
  | some frame => .ok frame
  | none => .error .malformed

end Frame

variable (json : SerdeJson)

/-- Borrow a raw view over already-serialized payload bytes. -/
def asRaw (bytes : Bytes) : Except CodecError Bytes :=
  match json.rawValue bytes with
  | some raw => .ok raw
  | none => .error .malformed

/-- A missing field decodes as the JSON literal `null`. -/
def payloadOf (raw : Option Bytes) : Payload := raw.getD (utf8 "null")

/-- A value frame's write stamp; its absence names the frame's subscription. -/
def stampOf (ts : Option UInt64) (sub : String) : Except CodecError Stamp :=
  match ts with
  | some ts => .ok ts
  | none => .error (.missingStamp sub)

def errCode : RpcError → String
  | .notFound => "not_found"
  | .denied => "denied"
  | .internal => "internal"
  | .versionMismatch => "version_mismatch"
  -- client-side only; a server has no reason to send it
  | .protocol => "internal"

def codeErr (code : String) : RpcError :=
  if code = "not_found" then .notFound
  else if code = "denied" then .denied
  else if code = "version_mismatch" then .versionMismatch
  else .internal

/-- `Option::ok_or(CodecError::Malformed)`. -/
def required {α : Type} (field : Option α) : Except CodecError α :=
  match field with
  | some value => .ok value
  | none => .error .malformed

def writeFrame (out : Bytes) (frame : Frame) : Except CodecError Bytes :=
  .ok (out ++ frame.toVec json)

/-- Append `data` as the last member, without validating it. -/
def writeFrameSplicingData (out : Bytes) (frame : Frame) (data : Bytes) :
    Except CodecError Bytes :=
  let scaffold := frame.toVec json
  if scaffold.getLast? = some closeBrace then
    .ok (out ++ scaffold.dropLast ++ utf8 ",\"data\":" ++ data ++ [closeBrace])
  else .error .malformed

/-- Decode one frame into a logical message (the server reads a request). -/
def decode (bytes : Bytes) : Except CodecError Inbound := do
  let f ← Frame.fromSlice json bytes
  if f.t = "req" then
    return .request (← required f.id) (← required f.method) (payloadOf f.params)
  else if f.t = "sub" then
    return .subscribe (← required f.id) (← required f.topic)
  else if f.t = "unsub" then
    return .unsubscribe (← required f.sub)
  else if f.t = "write" then
    return .write (← required f.topic) (payloadOf f.payload)
  else if f.t = "ping" then
    return .ping
  else .error .malformed

/-- Encode a logical message, appending to `out` (the server writes a reply). -/
def encode (msg : Outbound) (out : Bytes) : Except CodecError Bytes :=
  match msg with
  | .reply id (.ok data) => do
      let raw ← asRaw json data
      writeFrame json out { Frame.tagged "reply" with id := some id, ok := some raw }
  | .reply id (.error e) =>
      writeFrame json out { Frame.tagged "reply" with id := some id, err := some (errCode e) }
  | .event sub seq topic ts data =>
      writeFrameSplicingData json out
        { Frame.tagged "event" with sub := some sub, seq := some seq, topic, ts := some ts } data
  | .snapshot sub seq last topic ts data => do
      let raw ← asRaw json data
      writeFrame json out
        { Frame.tagged "snap" with
          sub := some sub, seq := some seq, last := if last then some true else none,
          topic := some topic, ts := some ts, data := some raw }
  | .pong => writeFrame json out (Frame.tagged "pong")
  | .subscribed sub => writeFrame json out { Frame.tagged "subscribed" with sub := some sub }

/-- Encode a logical message, appending to `out` (the client writes a request). -/
def encodeInbound (msg : Inbound) (out : Bytes) : Except CodecError Bytes :=
  match msg with
  | .request id method params => do
      let raw ← asRaw json params
      writeFrame json out
        { Frame.tagged "req" with id := some id, method := some method, params := some raw }
  | .subscribe id topic =>
      writeFrame json out { Frame.tagged "sub" with id := some id, topic := some topic }
  | .unsubscribe sub => writeFrame json out { Frame.tagged "unsub" with sub := some sub }
  | .write topic payload => do
      let raw ← asRaw json payload
      writeFrame json out
        { Frame.tagged "write" with topic := some topic, payload := some raw }
  | .ping => writeFrame json out (Frame.tagged "ping")

/-- Decode one frame into a logical message (the client reads a reply or event). -/
def decodeOutbound (bytes : Bytes) : Except CodecError Outbound := do
  let f ← Frame.fromSlice json bytes
  if f.t = "reply" then
    let id ← required f.id
    match f.ok, f.err with
    | some ok, _ => return .reply id (.ok (payloadOf (some ok)))
    | none, some code => return .reply id (.error (codeErr code))
    | none, none => .error .malformed
  else if f.t = "event" then
    let sub ← required f.sub
    return .event sub (← required f.seq) f.topic (← stampOf f.ts sub) (payloadOf f.data)
  else if f.t = "snap" then
    let sub ← required f.sub
    return .snapshot sub (← required f.seq) (f.last.getD false) (← required f.topic)
      (← stampOf f.ts sub) (payloadOf f.data)
  else if f.t = "subscribed" then
    return .subscribed (← required f.sub)
  else if f.t = "pong" then
    return .pong
  else .error .malformed

/-- `AimxCodec` as the codec of a session. -/
def aimxCodec : EnvelopeCodec :=
  ⟨decode json, encode json, encodeInbound json, decodeOutbound json⟩

end AimDb.Session.Aimx
