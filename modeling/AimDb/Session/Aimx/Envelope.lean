import AimDb.Session.Aimx.RoundTrip

/-!
# Round trips of the envelope

Requests survive exactly when their strings need no escape: the frame lends
every string out of the input, and an escaped one cannot be lent.  Replies
survive exactly when their result is not the JSON value `null`, which reads as
an absent field.
-/

namespace AimDb.Session.Aimx

open AimDb.Json

variable {json : SerdeJson}

theorem payloadOf_presentRaw (raw : Bytes) : payloadOf (Frame.presentRaw (some raw)) = raw := by
  by_cases null : raw = utf8 "null" <;> simp [Frame.presentRaw, payloadOf, Option.filter, null]

theorem asRaw_payload {raw : Bytes} (valid : IsPayload raw) : asRaw json raw = .ok raw := by
  rw [asRaw, json.rawValue_value raw valid.1 valid.2]

/-- The payload the message carries, if any, is one JSON value. -/
def PayloadValid : Inbound → Prop
  | .request _ _ params => IsPayload params
  | .write _ payload => IsPayload payload
  | .subscribe _ _ | .unsubscribe _ | .ping => True

/-- No string of the message holds a quote, a backslash or a control character. -/
def StringsUnescaped : Inbound → Prop
  | .request _ method _ => IsPlain method
  | .subscribe _ topic => IsPlain topic
  | .unsubscribe sub => IsPlain sub
  | .write topic _ => IsPlain topic
  | .ping => True

def inboundFrame : Inbound → Frame
  | .request id method params =>
      { Frame.tagged "req" with id := some id, method := some method, params := some params }
  | .subscribe id topic => { Frame.tagged "sub" with id := some id, topic := some topic }
  | .unsubscribe sub => { Frame.tagged "unsub" with sub := some sub }
  | .write topic payload =>
      { Frame.tagged "write" with topic := some topic, payload := some payload }
  | .ping => Frame.tagged "ping"

theorem encodeInbound_valid (msg : Inbound) (valid : PayloadValid msg) (out : Bytes) :
    encodeInbound json msg out = .ok (out ++ (inboundFrame msg).toVec json) := by
  cases msg with
  | request id method params =>
    rw [encodeInbound, asRaw_payload valid]
    rfl
  | write topic payload =>
    rw [encodeInbound, asRaw_payload valid]
    rfl
  | _ => rfl

theorem inboundFrame_rawsValid (msg : Inbound) (valid : PayloadValid msg) :
    (inboundFrame msg).RawsValid := by
  cases msg <;> constructor <;> simp [inboundFrame, Frame.tagged] <;> exact valid

theorem inboundFrame_stringsPlain_iff (msg : Inbound) :
    (inboundFrame msg).StringsPlain ↔ StringsUnescaped msg := by
  have tags : IsPlain "req" ∧ IsPlain "sub" ∧ IsPlain "unsub" ∧ IsPlain "write" ∧
      IsPlain "ping" := by decide +kernel
  rw [Frame.stringsPlain_iff]
  cases msg <;> simp [inboundFrame, Frame.tagged, StringsUnescaped, tags]

theorem decode_inboundFrame {msg : Inbound} {bytes : Bytes}
    (read : Frame.fromSlice json bytes = .ok (inboundFrame msg).received) :
    decode json bytes = .ok msg := by
  rw [decode, read]
  cases msg with
  | request id method params =>
    show Except.ok (Inbound.request id method (payloadOf (Frame.presentRaw (some params)))) = _
    rw [payloadOf_presentRaw]
  | write topic payload =>
    show Except.ok (Inbound.write topic (payloadOf (Frame.presentRaw (some payload)))) = _
    rw [payloadOf_presentRaw]
  | _ => rfl

/-- Decoding what was encoded returns the message exactly when none of its
strings needs an escape. -/
theorem decode_encodeInbound_iff (json : SerdeJson) (msg : Inbound) (out : Bytes)
    (valid : PayloadValid msg) :
    (∃ frame, encodeInbound json msg out = .ok (out ++ frame) ∧ decode json frame = .ok msg) ↔
      StringsUnescaped msg := by
  rw [encodeInbound_valid msg valid, ← inboundFrame_stringsPlain_iff]
  simp only [Except.ok.injEq, List.append_cancel_left_eq, exists_eq_left']
  constructor
  · intro decoded
    by_contra escaped
    have refused := Frame.fromSlice_toVec_escaped json
      (inboundFrame_rawsValid msg valid) escaped
    rw [decode, refused] at decoded
    exact nomatch decoded
  · intro plain
    exact decode_inboundFrame (Frame.fromSlice_toVec json (inboundFrame_rawsValid msg valid) plain)

theorem decode_encodeInbound_recordGet :
    (∃ frame, encodeInbound SerdeJson.reference (.request 7 "record.get" (utf8 "null")) [] =
        .ok ([] ++ frame) ∧
      decode SerdeJson.reference frame = .ok (.request 7 "record.get" (utf8 "null"))) ↔
      StringsUnescaped (.request 7 "record.get" (utf8 "null")) :=
  decode_encodeInbound_iff SerdeJson.reference (.request 7 "record.get" (utf8 "null")) []
    ⟨.literal (by simp), "null", rfl⟩

/-- A topic holding a quote is encoded to a frame that no decoder of borrowed
strings accepts. -/
theorem subscribe_quote_lost :
    PayloadValid (.subscribe 3 "a\"b") ∧
      ¬ ∃ json frame, encodeInbound json (.subscribe 3 "a\"b") [] = .ok frame ∧
        decode json frame = .ok (.subscribe 3 "a\"b") := by
  refine ⟨trivial, ?_⟩
  rintro ⟨json, frame, encoded, decoded⟩
  have escaped : ¬ (inboundFrame (.subscribe 3 "a\"b")).StringsPlain := by
    rw [inboundFrame_stringsPlain_iff]
    show ¬ IsPlain "a\"b"
    decide
  have refused := Frame.fromSlice_toVec_escaped json
    (inboundFrame_rawsValid (.subscribe 3 "a\"b") trivial) escaped
  have written : frame = (inboundFrame (.subscribe 3 "a\"b")).toVec json := by
    have same := (encodeInbound_valid (.subscribe 3 "a\"b") trivial []).symm.trans encoded
    exact (Except.ok.inj same).symm
  rw [decode, written, refused] at decoded
  exact nomatch decoded

/-- A result a server sends: one JSON value, or an error that is not the
client's own `Protocol`. -/
def ResultValid : Except RpcError Payload → Prop
  | .ok data => IsPayload data
  | .error e => e ≠ .protocol

def replyFrame (id : UInt64) : Except RpcError Payload → Frame
  | .ok data => { Frame.tagged "reply" with id := some id, ok := some data }
  | .error e => { Frame.tagged "reply" with id := some id, err := some (errCode e) }

theorem codeErr_errCode {e : RpcError} (sent : e ≠ .protocol) : codeErr (errCode e) = e := by
  cases e <;> first | rfl | exact absurd rfl sent

theorem encode_reply_valid {result : Except RpcError Payload} (valid : ResultValid result)
    (id : UInt64) (out : Bytes) :
    encode json (.reply id result) out = .ok (out ++ (replyFrame id result).toVec json) := by
  cases result with
  | ok data =>
    rw [encode, asRaw_payload valid]
    rfl
  | error e => rfl

theorem replyFrame_rawsValid {result : Except RpcError Payload} (valid : ResultValid result)
    (id : UInt64) : (replyFrame id result).RawsValid := by
  cases result <;> constructor <;> simp [replyFrame, Frame.tagged]
  exact valid

theorem replyFrame_stringsPlain (id : UInt64) (result : Except RpcError Payload) :
    (replyFrame id result).StringsPlain := by
  have codes : ∀ e, IsPlain (errCode e) := by rintro (_ | _ | _ | _ | _) <;> decide +kernel
  have tag : IsPlain "reply" := by decide +kernel
  rw [Frame.stringsPlain_iff]
  cases result <;> simp [replyFrame, Frame.tagged, codes, tag]

theorem decodeOutbound_replyFrame {result : Except RpcError Payload} {id : UInt64} {bytes : Bytes}
    (valid : ResultValid result)
    (read : Frame.fromSlice json bytes = .ok (replyFrame id result).received) :
    decodeOutbound json bytes =
      if result = .ok (utf8 "null") then .error .malformed else .ok (.reply id result) := by
  rw [decodeOutbound, read]
  cases result with
  | ok data =>
    by_cases null : data = utf8 "null"
    · subst null
      rfl
    · have present : Frame.presentRaw (some data) = some data := by
        simp [Frame.presentRaw, Option.filter, null]
      have other : (Except.ok data : Except RpcError Payload) ≠ .ok (utf8 "null") :=
        fun same => null (Except.ok.inj same)
      simp only [replyFrame, Frame.received, present, if_neg other]
      rfl
  | error e =>
    show Except.ok (Outbound.reply id (.error (codeErr (errCode e)))) = _
    rw [codeErr_errCode valid, if_neg (fun same => by cases same)]

/-- A reply resolves at the client with the server's result exactly when that
result is not the JSON value `null`. -/
theorem decodeOutbound_encode_reply_iff (json : SerdeJson) (id : UInt64)
    (result : Except RpcError Payload) (out : Bytes) (valid : ResultValid result) :
    (∃ frame, encode json (.reply id result) out = .ok (out ++ frame) ∧
      decodeOutbound json frame = .ok (.reply id result)) ↔ result ≠ .ok (utf8 "null") := by
  have read := Frame.fromSlice_toVec json (replyFrame_rawsValid valid id)
    (replyFrame_stringsPlain id result)
  rw [encode_reply_valid valid]
  simp only [Except.ok.injEq, List.append_cancel_left_eq, exists_eq_left',
    decodeOutbound_replyFrame valid read]
  split_ifs with null <;> simp [null]

theorem decodeOutbound_encode_reply_true :
    (∃ frame, encode SerdeJson.reference (.reply 7 (.ok (utf8 "true"))) [] = .ok ([] ++ frame) ∧
      decodeOutbound SerdeJson.reference frame = .ok (.reply 7 (.ok (utf8 "true")))) ↔
      (Except.ok (utf8 "true") : Except RpcError Payload) ≠ .ok (utf8 "null") :=
  decodeOutbound_encode_reply_iff SerdeJson.reference 7 (.ok (utf8 "true")) []
    ⟨.literal (by simp), "true", rfl⟩

/-- A call the server answered with `null` is never resolved by its reply. -/
theorem reply_null_lost :
    ResultValid (.ok (utf8 "null")) ∧
      ¬ ∃ json frame, encode json (.reply 1 (.ok (utf8 "null"))) [] = .ok frame ∧
        decodeOutbound json frame = .ok (.reply 1 (.ok (utf8 "null"))) := by
  have valid : ResultValid (.ok (utf8 "null")) := ⟨.literal (by simp), "null", rfl⟩
  refine ⟨valid, ?_⟩
  rintro ⟨json, frame, encoded, decoded⟩
  have written : frame = (replyFrame 1 (.ok (utf8 "null"))).toVec json :=
    (Except.ok.inj ((encode_reply_valid valid 1 []).symm.trans encoded)).symm
  have read := Frame.fromSlice_toVec json (replyFrame_rawsValid valid 1)
    (replyFrame_stringsPlain 1 _)
  rw [written, decodeOutbound_replyFrame valid read, if_pos rfl] at decoded
  exact nomatch decoded

end AimDb.Session.Aimx
