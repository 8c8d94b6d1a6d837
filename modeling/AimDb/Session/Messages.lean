import AimDb.Json.Text

/-!
# The role-neutral message set of a session

What the server receives is what the client sends and the other way round;
record values stay opaque bytes throughout.
-/

namespace AimDb.Session

open AimDb.Json

abbrev Payload := Bytes

/-- Nanoseconds since the instance started. -/
abbrev Stamp := UInt64

/-- Dispatch-layer failure of a call, subscribe or write. -/
inductive RpcError where
  | notFound
  | denied
  | internal
  | versionMismatch
  | protocol
  deriving DecidableEq, Repr

/-- A frame could not be decoded or encoded. -/
inductive CodecError where
  | malformed
  | missingStamp (sub : String)
  deriving DecidableEq, Repr

/-- A logical request arriving over a connection. -/
inductive Inbound where
  | request (id : UInt64) (method : String) (params : Payload)
  | subscribe (id : UInt64) (topic : String)
  | unsubscribe (sub : String)
  | write (topic : String) (payload : Payload)
  | ping
  deriving DecidableEq, Repr

/-- A logical message sent back over a connection. -/
inductive Outbound where
  | reply (id : UInt64) (result : Except RpcError Payload)
  | event (sub : String) (seq : UInt64) (topic : Option String) (ts : Stamp) (data : Payload)
  | snapshot (sub : String) (seq : UInt64) (last : Bool) (topic : String) (ts : Stamp)
      (data : Payload)
  | subscribed (sub : String)
  | pong
  deriving DecidableEq, Repr

/-- The subscription and the sequence number of a frame that carries a value. -/
def Outbound.numbered : Outbound → Option (String × UInt64)
  | .event sub seq _ _ _ | .snapshot sub seq _ _ _ _ => some (sub, seq)
  | .reply _ _ | .subscribed _ | .pong => none

/-- One update delivered on a subscription stream. -/
structure SubUpdate where
  topic : Option String
  data : Payload
  ts : Stamp
  skipped : UInt64
  snapshotEnd : Bool
  deriving DecidableEq, Repr

namespace SubUpdate

def new (data : Payload) (ts : Stamp) : SubUpdate := ⟨none, data, ts, 0, false⟩

def tagged (topic : String) (data : Payload) (ts : Stamp) : SubUpdate :=
  ⟨some topic, data, ts, 0, false⟩

end SubUpdate

/-- The protocol-envelope codec: frame bytes to and from the message set, each
encoder appending to the bytes it is given. -/
structure EnvelopeCodec where
  decode : Bytes → Except CodecError Inbound
  encode : Outbound → Bytes → Except CodecError Bytes
  encodeInbound : Inbound → Bytes → Except CodecError Bytes
  decodeOutbound : Bytes → Except CodecError Outbound

/-- `id.to_string()`. -/
def subKey (id : UInt64) : String := id.toNat.repr

/-- `str::parse::<u64>`: an optional plus sign, then decimal digits in range. -/
def parseU64 (text : String) : Option UInt64 :=
  let digits := if text.toList.head? = some '+' then text.toList.tail else text.toList
  if digits ≠ [] ∧ digits.all (·.isDigit) ∧ Nat.ofDigitChars 10 digits 0 < UInt64.size then
    some (UInt64.ofNat (Nat.ofDigitChars 10 digits 0))
  else none

theorem subKey_digits (id : UInt64) :
    (subKey id).toList ≠ [] ∧ (∀ c ∈ (subKey id).toList, c.isDigit) ∧
      Nat.ofDigitChars 10 (subKey id).toList 0 = id.toNat := by
  rw [subKey, Nat.toList_repr]
  exact ⟨Nat.toDigits_ne_nil,
    fun c digit => Nat.isDigit_of_mem_toDigits (by omega) (by omega) digit,
    Nat.ofDigitChars_ten_toDigits⟩

theorem parseU64_subKey (id : UInt64) : parseU64 (subKey id) = some id := by
  obtain ⟨someDigits, allDigits, value⟩ := subKey_digits id
  have unsigned : (subKey id).toList.head? ≠ some '+' := by
    intro plus
    have digit := allDigits '+' (List.mem_of_mem_head? plus)
    exact absurd digit (by decide)
  have inRange := id.toNat_lt_size
  simp only [parseU64, if_neg unsigned, value]
  rw [if_pos ⟨someDigits, by simpa using allDigits, inRange⟩]
  simp

theorem subKey_injective : Function.Injective subKey := by
  intro first second same
  have read := congrArg parseU64 same
  simpa [parseU64_subKey] using read

end AimDb.Session
