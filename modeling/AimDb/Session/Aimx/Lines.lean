import AimDb.Json.Object
import AimDb.Json.Text
import AimDb.Session.Aimx.Codec
import AimDb.Uds.Transport

/-!
# One envelope frame, one line

Strings are escaped, numbers are digits, and every frame ends with a brace: only
the payload, which is spliced in as it stands, can bring a newline into a frame.
-/

namespace AimDb.Session.Aimx

open AimDb.Json AimDb.Uds
open AimDb.Uds.UdsConnection (KeepsEnd ReadsBack wire readsBack_wire_iff)

/-- A borrowed raw value is the text without the space around it. -/
def SerdeJson.TrimsSpace (json : SerdeJson) : Prop :=
  ∀ bytes raw, json.rawValue bytes = some raw → raw = trimmed bytes

/-- The reference library, accepting space around a raw value. -/
def SerdeJson.trimming : SerdeJson :=
  { SerdeJson.reference with
    rawValue := fun bytes => lendRaw (trimmed bytes)
    rawValue_value := fun bytes isValue isUtf8 => by
      rw [trimmed_value isValue]
      exact SerdeJson.reference.rawValue_value bytes isValue isUtf8 }

theorem SerdeJson.trimming_trimsSpace : SerdeJson.trimming.TrimsSpace := by
  intro bytes raw borrowed
  have lent : lendRaw (trimmed bytes) = some raw := borrowed
  rw [lendRaw] at lent
  split_ifs at lent
  exact (Option.some.inj lent).symm

namespace Frame

variable {json : SerdeJson}

def raws (frame : Frame) : List Bytes :=
  frame.params.toList ++ frame.payload.toList ++ frame.data.toList ++ frame.ok.toList

def Breaks (members : List (String × Bytes)) : Prop :=
  ∃ m ∈ members, newline ∈ utf8 m.1 ∨ newline ∈ m.2

theorem breaks_append {front back : List (String × Bytes)} :
    Breaks (front ++ back) ↔ Breaks front ∨ Breaks back := by
  simp only [Breaks, List.mem_append, or_and_right, exists_or]

theorem breaks_optionalMember {α : Type} {key : String} {write : α → Bytes} {field : Option α}
    (known : key ∈ fieldNames) :
    Breaks (optionalMember key write field) ↔ ∃ value ∈ field, newline ∈ write value := by
  have keys : ∀ name ∈ fieldNames, newline ∉ utf8 name := by decide
  simp [Breaks, optionalMember, keys key known]

theorem newline_not_mem_quoted (s : String) : newline ∉ json.quoted s := fun inside =>
  absurd (json.quoted_printable s newline inside) (by decide)

theorem newline_not_mem_decimal (n : ℕ) : newline ∉ decimal n := fun inside =>
  absurd ((decimal_digits n).2 newline inside) (by decide)

theorem newline_mem_toVec {frame : Frame} :
    newline ∈ frame.toVec json ↔ ∃ raw ∈ frame.raws, newline ∈ raw := by
  have boolean_free : ∀ b, newline ∉ boolean b := by decide
  have tag : ¬ Breaks [("t", json.quoted frame.t)] := by
    have key : newline ∉ utf8 "t" := by decide
    simp [Breaks, key, newline_not_mem_quoted]
  rw [toVec, mem_objectText_iff (by decide)]
  change Breaks (frame.members json) ↔ _
  simp only [members, breaks_append]
  simp (disch := decide) only [breaks_optionalMember, newline_not_mem_quoted,
    newline_not_mem_decimal, boolean_free, tag, verbatim, and_false, exists_false, false_or,
    or_false]
  simp [raws, or_and_right, exists_or, or_assoc]

theorem toVec_keepsEnd (frame : Frame) : KeepsEnd (frame.toVec json) :=
  ⟨_, closeBrace, rfl, by decide, by decide⟩

end Frame

inductive Message where
  | request (msg : Inbound)
  | response (msg : Outbound)

variable (json : SerdeJson)

def encodeMessage : Message → Except CodecError Bytes
  | .request msg => encodeInbound json msg []
  | .response msg => encode json msg []

/-- The payload text of the message's frame: the space around a checked payload
is dropped, an event's payload is spliced unchecked. -/
def payloadText : Message → Bytes
  | .request (.request _ _ params) => trimmed params
  | .request (.write _ payload) => trimmed payload
  | .request (.subscribe _ _) | .request (.unsubscribe _) | .request .ping => []
  | .response (.reply _ (.ok data)) => trimmed data
  | .response (.event _ _ _ _ data) => data
  | .response (.snapshot _ _ _ _ _ data) => trimmed data
  | .response (.reply _ (.error _)) | .response (.subscribed _) | .response .pong => []

variable {json}

theorem asRaw_trimmed (trims : json.TrimsSpace) {bytes raw : Bytes}
    (borrowed : asRaw json bytes = .ok raw) : raw = trimmed bytes := by
  rw [asRaw] at borrowed
  split at borrowed
  · rename_i lent
    rw [← Except.ok.inj borrowed]
    exact trims _ _ lent
  · cases borrowed

theorem frame_of_encoded (trims : json.TrimsSpace) {message : Message} {bytes : Bytes}
    (encoded : encodeMessage json message = .ok bytes) :
    KeepsEnd bytes ∧ (newline ∈ bytes ↔ newline ∈ payloadText message) := by
  have plain {frame : Frame} {text : Bytes} (written : writeFrame json [] frame = .ok bytes)
      (raws : (∃ raw ∈ frame.raws, newline ∈ raw) ↔ newline ∈ text) :
      KeepsEnd bytes ∧ (newline ∈ bytes ↔ newline ∈ text) := by
    rw [writeFrame, List.nil_append] at written
    rw [← Except.ok.inj written]
    exact ⟨frame.toVec_keepsEnd, Frame.newline_mem_toVec.trans raws⟩
  have checked {payload : Bytes} {frame : Bytes → Frame}
      (written : (asRaw json payload >>= fun raw => writeFrame json [] (frame raw)) = .ok bytes)
      (raws : ∀ raw, (frame raw).raws = [raw]) :
      KeepsEnd bytes ∧ (newline ∈ bytes ↔ newline ∈ trimmed payload) := by
    cases borrowed : asRaw json payload with
    | error e =>
        rw [borrowed] at written
        exact nomatch written
    | ok raw =>
        rw [borrowed] at written
        rw [← asRaw_trimmed trims borrowed]
        exact plain written (by simp [raws])
  cases message with
  | request msg =>
      cases msg with
      | request => exact checked encoded fun _ => rfl
      | write => exact checked encoded fun _ => rfl
      | subscribe => exact plain encoded (by simp [Frame.raws, Frame.tagged, payloadText])
      | unsubscribe => exact plain encoded (by simp [Frame.raws, Frame.tagged, payloadText])
      | ping => exact plain encoded (by simp [Frame.raws, Frame.tagged, payloadText])
  | response msg =>
      cases msg with
      | reply id result =>
          cases result with
          | ok data => exact checked encoded fun _ => rfl
          | error e => exact plain encoded (by simp [Frame.raws, Frame.tagged, payloadText])
      | snapshot => exact checked encoded fun _ => rfl
      | subscribed => exact plain encoded (by simp [Frame.raws, Frame.tagged, payloadText])
      | pong => exact plain encoded (by simp [Frame.raws, Frame.tagged, payloadText])
      | event sub seq topic ts data =>
          -- everything around the spliced data comes from a frame without payload
          have scaffold {frame : Frame}
              (written : writeFrameSplicingData json [] frame data = .ok bytes)
              (empty : frame.raws = []) :
              KeepsEnd bytes ∧ (newline ∈ bytes ↔ newline ∈ data) := by
            have free : newline ∉ frame.toVec json := by
              rw [Frame.newline_mem_toVec, empty]
              simp
            have front : newline ∉ (frame.toVec json).dropLast := fun inside =>
              free (List.mem_of_mem_dropLast inside)
            have key : newline ∉ utf8 ",\"data\":" := by decide
            have brace : newline ≠ closeBrace := by decide
            rw [writeFrameSplicingData] at written
            split_ifs at written
            rw [← Except.ok.inj written]
            refine ⟨⟨_, closeBrace, rfl, by decide, by decide⟩, ?_⟩
            simp [front, key, brace]
          have spliced : writeFrameSplicingData json []
              { Frame.tagged "event" with sub := some sub, seq := some seq, topic, ts := some ts }
              data = .ok bytes := encoded
          exact scaffold spliced (by simp [Frame.raws, Frame.tagged])

/-- One frame is one line exactly when no payload text holds a newline. -/
theorem readsBack_encoded_iff (json : SerdeJson) (trims : json.TrimsSpace)
    {messages : List Message} {frames : List Bytes}
    (encoded : List.Forall₂ (fun message frame => encodeMessage json message = .ok frame)
      messages frames) :
    ReadsBack (wire frames) frames ↔
        ∀ message ∈ messages, newline ∉ payloadText message := by
  have keeps : ∀ frame ∈ frames, KeepsEnd frame := by
    induction encoded with
    | nil => simp
    | cons written _ inductionHypothesis =>
        exact List.forall_mem_cons.mpr ⟨(frame_of_encoded trims written).1, inductionHypothesis⟩
  rw [readsBack_wire_iff keeps]
  clear keeps
  induction encoded with
  | nil => simp
  | cons written _ inductionHypothesis =>
      simp only [List.forall_mem_cons, inductionHypothesis, (frame_of_encoded trims written).2]

/-- A request, a reply and an event whose payloads hold space, but no newline. -/
def spacedMessages : List Message :=
  [.request (.request 1 "m" (utf8 " [1,\t2]\n")), .response (.reply 2 (.ok (utf8 "[ ]"))),
    .response (.event "3" 1 none 7 (utf8 "0"))]

def spacedFrames : List Bytes :=
  [utf8 "\x7b\"t\":\"req\",\"id\":1,\"method\":\"m\",\"params\":[1,\t2]\x7d",
    utf8 "\x7b\"t\":\"reply\",\"id\":2,\"ok\":[ ]\x7d",
    utf8 "\x7b\"t\":\"event\",\"seq\":1,\"sub\":\"3\",\"ts\":7,\"data\":0\x7d"]

theorem readsBack_encoded_spaced :
    ReadsBack (wire spacedFrames) spacedFrames ↔
      ∀ message ∈ spacedMessages, newline ∉ payloadText message := by
  refine readsBack_encoded_iff SerdeJson.trimming SerdeJson.trimming_trimsSpace ?_
  refine .cons ?_ (.cons ?_ (.cons ?_ .nil)) <;> decide

theorem isValue_broken : IsValue (utf8 "[1,\n2]") := by
  have digit : ∀ d ∈ ['1'.toUInt8, '2'.toUInt8], IsValue [d] := by
    intro d inside
    refine .number ⟨[], [d], [], [], rfl, .inl rfl, .inr ⟨⟨by simp, ?_⟩, ?_⟩,
      .inl rfl, .inl rfl⟩
    all_goals revert d; decide
  have second : Derives .elements ([newline] ++ ['2'.toUInt8] ++ []) :=
    .lastElement (by simp [IsBlank, IsSpace, show newline = 0x0a from rfl]) (digit _ (by simp))
      (by simp [IsBlank])
  have both : Derives .elements
      ([] ++ ['1'.toUInt8] ++ [] ++ comma :: ([newline] ++ ['2'.toUInt8] ++ [])) :=
    .element (by simp [IsBlank]) (digit _ (by simp)) (by simp [IsBlank]) second
  have text : utf8 "[1,\n2]" = openBracket ::
      ([] ++ ['1'.toUInt8] ++ [] ++ comma :: ([newline] ++ ['2'.toUInt8] ++ [])) ++
        [closeBracket] := by decide
  rw [text]
  exact .array both

/-- The frame of parameters broken over two lines. -/
def brokenFrame : Bytes :=
  utf8 "\x7b\"t\":\"req\",\"id\":1,\"method\":\"m\",\"params\":[1,\n2]\x7d"

/-- Parameters broken over two lines are one JSON value, and their frame is read
back in two pieces. -/
theorem broken_params_split :
    IsValue (utf8 "[1,\n2]") ∧
      encodeMessage SerdeJson.reference (.request (.request 1 "m" (utf8 "[1,\n2]"))) =
        .ok brokenFrame ∧ ¬ ReadsBack (wire [brokenFrame]) [brokenFrame] := by
  refine ⟨isValue_broken, by decide, ?_⟩
  rw [readsBack_wire_iff]
  · decide
  · intro frame inside
    obtain rfl := List.mem_singleton.mp inside
    exact ⟨brokenFrame.dropLast, closeBrace, by decide, by decide, by decide⟩

end AimDb.Session.Aimx
