import AimDb.Session.Aimx.Envelope

/-!
# The spliced event

An event's payload is appended to the serialized frame in place of its closing
brace.  The bytes are those of the frame that carries the payload as a raw
field, and they are read back unless a string of the event needed an escape.
-/

namespace AimDb.Json

theorem intercalate_concat {α : Type*} (separator : List α) (parts : List (List α))
    (last : List α) (nonempty : parts ≠ []) :
    separator.intercalate (parts ++ [last]) =
      separator.intercalate parts ++ separator ++ last := by
  induction parts with
  | nil => exact absurd rfl nonempty
  | cons part parts inductionHypothesis =>
      cases parts with
      | nil => simp
      | cons next parts =>
          rw [List.cons_append, List.cons_append, List.intercalate_cons_cons,
            List.intercalate_cons_cons, ← List.cons_append, inductionHypothesis (by simp)]
          simp only [List.append_assoc]

theorem objectText_concat (members : List (String × Bytes)) (last : String × Bytes)
    (nonempty : members ≠ []) :
    objectText (members ++ [last]) =
      (objectText members).dropLast ++ comma :: memberText last ++ [closeBrace] := by
  rw [objectText, objectText, List.dropLast_concat, List.map_append, List.map_singleton,
    intercalate_concat _ _ _ (by simpa using nonempty)]
  simp

end AimDb.Json

namespace AimDb.Session.Aimx

open AimDb.Json

variable {json : SerdeJson}

theorem Frame.members_ne_nil (frame : Frame) : frame.members json ≠ [] := by
  simp [Frame.members]

theorem Frame.members_data {frame : Frame} (raw : Bytes) (noData : frame.data = none)
    (noOk : frame.ok = none) (noErr : frame.err = none) :
    { frame with data := some raw }.members json = frame.members json ++ [("data", raw)] := by
  simp [Frame.members, Frame.optionalMember, Frame.verbatim, noData, noOk, noErr]

theorem writeFrameSplicingData_eq {frame : Frame} (out raw : Bytes) (noData : frame.data = none)
    (noOk : frame.ok = none) (noErr : frame.err = none) :
    writeFrameSplicingData json out frame raw =
      writeFrame json out { frame with data := some raw } := by
  have closes : (frame.toVec json).getLast? = some closeBrace := by
    rw [Frame.toVec, objectText, List.getLast?_concat]
  have key : utf8 ",\"data\":" = comma :: (quote :: utf8 "data" ++ [quote]) ++ [colon] := by
    decide
  rw [writeFrameSplicingData, if_pos closes, writeFrame, Frame.toVec, Frame.toVec,
    Frame.members_data raw noData noOk noErr, objectText_concat _ _ frame.members_ne_nil, key]
  simp [memberText]

def eventFrame (sub : String) (seq : UInt64) (topic : Option String) (ts : Stamp) : Frame :=
  { Frame.tagged "event" with sub := some sub, seq := some seq, topic, ts := some ts }

/-- An event the structural way: the payload as a raw field of the frame. -/
def encodeEventRaw (json : SerdeJson) (sub : String) (seq : UInt64) (topic : Option String)
    (ts : Stamp) (data out : Bytes) : Except CodecError Bytes := do
  let raw ← asRaw json data
  writeFrame json out { eventFrame sub seq topic ts with data := some raw }

variable {sub : String} {seq : UInt64} {topic : Option String} {ts : Stamp} {data : Bytes}

theorem encode_event_eq (valid : IsPayload data) (out : Bytes) :
    encode json (.event sub seq topic ts data) out =
      encodeEventRaw json sub seq topic ts data out := by
  have spliced : writeFrameSplicingData json out (eventFrame sub seq topic ts) data =
      writeFrame json out { eventFrame sub seq topic ts with data := some data } :=
    writeFrameSplicingData_eq out data rfl rfl rfl
  rw [encodeEventRaw, asRaw_payload valid, encode]
  exact spliced

theorem encodeEventRaw_valid (valid : IsPayload data) (out : Bytes) :
    encodeEventRaw json sub seq topic ts data out =
      .ok (out ++ { eventFrame sub seq topic ts with data := some data }.toVec json) := by
  rw [encodeEventRaw, asRaw_payload valid]
  rfl

theorem eventFrame_rawsValid (valid : IsPayload data) :
    { eventFrame sub seq topic ts with data := some data }.RawsValid := by
  constructor <;> simp [eventFrame, Frame.tagged]
  exact valid

theorem eventFrame_stringsPlain_iff :
    { eventFrame sub seq topic ts with data := some data }.StringsPlain ↔
      IsPlain sub ∧ ∀ s ∈ topic, IsPlain s := by
  have tag : IsPlain "event" := by decide +kernel
  rw [Frame.stringsPlain_iff]
  simp [eventFrame, Frame.tagged, tag, and_comm]

theorem decodeOutbound_eventFrame {bytes : Bytes}
    (read : Frame.fromSlice json bytes =
      .ok { eventFrame sub seq topic ts with data := some data }.received) :
    decodeOutbound json bytes = .ok (.event sub seq topic ts data) := by
  rw [decodeOutbound, read]
  show Except.ok (Outbound.event sub seq topic ts (payloadOf (Frame.presentRaw (some data)))) = _
  rw [payloadOf_presentRaw]

/-- Splicing always writes the bytes of the structural encoding, and they decode to
the event exactly when neither its `sub` nor its topic needs an escape. -/
theorem encode_event_agrees_iff (json : SerdeJson) (sub : String) (seq : UInt64)
    (topic : Option String) (ts : Stamp) (data out : Bytes) (valid : IsPayload data) :
    encode json (.event sub seq topic ts data) out =
        encodeEventRaw json sub seq topic ts data out ∧
      ((∃ frame, encode json (.event sub seq topic ts data) out = .ok (out ++ frame) ∧
          decodeOutbound json frame = .ok (.event sub seq topic ts data)) ↔
        IsPlain sub ∧ ∀ s ∈ topic, IsPlain s) := by
  refine ⟨encode_event_eq valid out, ?_⟩
  rw [encode_event_eq valid, encodeEventRaw_valid valid,
    ← @eventFrame_stringsPlain_iff sub seq topic ts data]
  simp only [Except.ok.injEq, List.append_cancel_left_eq, exists_eq_left']
  constructor
  · intro decoded
    by_contra escaped
    rw [decodeOutbound, Frame.fromSlice_toVec_escaped json (eventFrame_rawsValid valid) escaped]
      at decoded
    cases decoded
  · intro plain
    exact decodeOutbound_eventFrame (Frame.fromSlice_toVec json (eventFrame_rawsValid valid) plain)

theorem encode_event_agrees_true :
    encode SerdeJson.reference (.event "1" 7 none 9 (utf8 "true")) [] =
        encodeEventRaw SerdeJson.reference "1" 7 none 9 (utf8 "true") [] ∧
      ((∃ frame, encode SerdeJson.reference (.event "1" 7 none 9 (utf8 "true")) [] =
            .ok ([] ++ frame) ∧
          decodeOutbound SerdeJson.reference frame = .ok (.event "1" 7 none 9 (utf8 "true"))) ↔
        IsPlain "1" ∧ ∀ s ∈ (none : Option String), IsPlain s) :=
  encode_event_agrees_iff SerdeJson.reference "1" 7 none 9 (utf8 "true") []
    ⟨.literal (by simp), "true", rfl⟩

/-- The event of a record whose key holds a quote is not read by any client. -/
theorem event_quote_lost :
    IsPayload (utf8 "true") ∧
      ¬ ∃ json frame, encode json (.event "1" 1 (some "a\"b") 0 (utf8 "true")) [] = .ok frame ∧
        decodeOutbound json frame = .ok (.event "1" 1 (some "a\"b") 0 (utf8 "true")) := by
  have valid : IsPayload (utf8 "true") := ⟨.literal (by simp), "true", rfl⟩
  refine ⟨valid, ?_⟩
  rintro ⟨json, frame, encoded, decoded⟩
  rw [encode_event_eq valid, encodeEventRaw_valid valid, List.nil_append] at encoded
  obtain rfl := Except.ok.inj encoded
  have escaped : ¬ { eventFrame "1" 1 (some "a\"b") 0 with
      data := some (utf8 "true") }.StringsPlain := by
    rw [eventFrame_stringsPlain_iff]
    decide +kernel
  rw [decodeOutbound, Frame.fromSlice_toVec_escaped json (eventFrame_rawsValid valid) escaped]
    at decoded
  cases decoded

end AimDb.Session.Aimx
