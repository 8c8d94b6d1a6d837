import AimDb.Error
import AimDb.Json.Text
import AimDb.Session.Messages

/-!
# Writes through an AimX session

A client's `write` carries a value either as it is or wrapped in an object with
the single field `value`; the session unwraps whatever has that field.
-/

namespace AimDb.Session.Aimx

open AimDb.Json

inductive SecurityPolicy where
  | readOnly
  | readWrite (writableRecords : List String)

/-- One connection's session over the database. -/
structure AimxSession where
  securityPolicy : SecurityPolicy

/-- Map a database error onto the wire's coarse error set. -/
def mapDbErr : DbError → RpcError
  | .recordKeyNotFound _ | .invalidRecordId _ => .notFound
  | .permissionDenied _ => .denied
  | _ => .internal

/-- What `pump_client` sends for an outbound value: the serialized bytes. -/
def pumpedWrite (topic : String) (serialized : Payload) : Inbound := .write topic serialized

/-- What `AimxConnection::write_record` serializes for a value. -/
def writeRecordValue (value : Value) : Value := .object [("value", value)]

namespace AimxSession

def ensureWritable (session : AimxSession) (name : String) : Except RpcError Unit :=
  match session.securityPolicy with
  | .readWrite writableRecords => if name ∈ writableRecords then .ok () else .error .denied
  | .readOnly => .error .denied

variable (fromSlice : Bytes → Option Value)
  (setRecordFromJson : String → Value → Except DbError Unit)

/-- Perform a write: the record and value handed to the database, if any, and the
outcome. -/
def write (session : AimxSession) (topic : String) (payload : Payload) :
    Option (String × Value) × Except RpcError Unit :=
  match session.ensureWritable topic with
  | .error e => (none, .error e)
  | .ok () =>
      let v := (fromSlice payload).getD .null
      -- the client may wrap the value; otherwise it is the whole payload
      let value := (v.get "value").getD v
      (some (topic, value),
        match setRecordFromJson topic value with
        | .ok () => .ok ()
        | .error e => .error (mapDbErr e))

variable {fromSlice setRecordFromJson} {session : AimxSession} {topic : String} {payload : Payload}

theorem write_writable (writable : session.ensureWritable topic = .ok ()) {value : Value}
    (reads : fromSlice payload = some value) :
    (session.write fromSlice setRecordFromJson topic payload).1 =
      some (topic, (value.get "value").getD value) := by
  simp [write, writable, reads]

/-- What serde_json makes of a value's text, alone and under the field `value`: it may refuse
a deep text, and it keeps everything but the numbers, which it may round. -/
structure Documented (fromSlice : Bytes → Option Value) (value : Value)
    (serialized wrapped : Payload) : Prop where
  shape : ∀ read, fromSlice serialized = some read → read.shape = value.shape
  wrapper : ∀ read, fromSlice wrapped = some read → ∃ part, read = writeRecordValue part
  null : value = .null →
    fromSlice serialized = some .null ∧ fromSlice wrapped = some (writeRecordValue .null)

theorem get_writeRecordValue (value : Value) :
    (writeRecordValue value).get "value" = some value := by
  simp [writeRecordValue, Value.get]

theorem write_unreadable (writable : session.ensureWritable topic = .ok ())
    (refuses : fromSlice payload = none) :
    (session.write fromSlice setRecordFromJson topic payload).1 = some (topic, .null) := by
  simp [write, writable, refuses, Value.get]

theorem write_serialized {value : Value} {serialized wrapped : Payload}
    (documented : Documented fromSlice value serialized wrapped)
    (writable : session.ensureWritable topic = .ok ())
    (passes : (session.write fromSlice setRecordFromJson topic serialized).1 =
      some (topic, value)) :
    fromSlice serialized = some value ∧ value.get "value" = none := by
  cases reads : fromSlice serialized with
  | none =>
      rw [write_unreadable writable reads] at passes
      obtain rfl : Value.null = value := by simpa using passes
      cases reads.symm.trans (documented.null rfl).1
  | some read =>
      rw [write_writable writable reads] at passes
      cases found : read.get "value" with
      | none =>
          obtain rfl : read = value := by simpa [found] using passes
          exact ⟨rfl, found⟩
      | some part =>
          obtain rfl : part = value := by simpa [found] using passes
          have inside : part.shape.get "value" = some part.shape := by
            rw [← documented.shape read reads, Value.get_shape, found, Option.map_some,
              documented.shape read reads]
          exact absurd rfl (Value.ne_of_get inside)

theorem write_wrapped {value : Value} {serialized wrapped : Payload}
    (documented : Documented fromSlice value serialized wrapped)
    (writable : session.ensureWritable topic = .ok ())
    (passes : (session.write fromSlice setRecordFromJson topic wrapped).1 = some (topic, value)) :
    fromSlice wrapped = some (writeRecordValue value) := by
  cases reads : fromSlice wrapped with
  | none =>
      rw [write_unreadable writable reads] at passes
      obtain rfl : Value.null = value := by simpa using passes
      cases reads.symm.trans (documented.null rfl).2
  | some read =>
      obtain ⟨part, rfl⟩ := documented.wrapper read reads
      rw [write_writable writable reads, get_writeRecordValue] at passes
      obtain rfl : part = value := by simpa using passes
      rfl

/-- Both shapes of a write hand over the value exactly when the library reads both texts back
and the value itself has no field `value`. -/
theorem write_exact_iff {value : Value} {serialized wrapped : Payload}
    (documented : Documented fromSlice value serialized wrapped)
    (writable : session.ensureWritable topic = .ok ()) :
    ((session.write fromSlice setRecordFromJson topic serialized).1 = some (topic, value) ∧
      (session.write fromSlice setRecordFromJson topic wrapped).1 = some (topic, value)) ↔
      fromSlice serialized = some value ∧ fromSlice wrapped = some (writeRecordValue value) ∧
        value.get "value" = none := by
  constructor
  · rintro ⟨unwrapped, passes⟩
    obtain ⟨reads, fieldless⟩ := write_serialized documented writable unwrapped
    exact ⟨reads, write_wrapped documented writable passes, fieldless⟩
  · rintro ⟨reads, readsWrapped, fieldless⟩
    rw [write_writable writable reads, write_writable writable readsWrapped, get_writeRecordValue,
      fieldless]
    exact ⟨rfl, rfl⟩

def listed (texts : List (Bytes × Value)) (bytes : Bytes) : Option Value := texts.lookup bytes

theorem write_exact_level :
    let value := Value.object [("level", .number "9")]
    let fromSlice := listed [(utf8 "\x7b\"level\":9\x7d", value),
      (utf8 "\x7b\"value\":\x7b\"level\":9\x7d\x7d", writeRecordValue value)]
    let session : AimxSession := ⟨.readWrite ["cfg"]⟩
    (session.write fromSlice (fun _ _ => .ok ()) "cfg" (utf8 "\x7b\"level\":9\x7d")).1 =
        some ("cfg", value) ∧
      (session.write fromSlice (fun _ _ => .ok ()) "cfg"
        (utf8 "\x7b\"value\":\x7b\"level\":9\x7d\x7d")).1 = some ("cfg", value) := by
  intro value fromSlice session
  have other : (utf8 "\x7b\"value\":\x7b\"level\":9\x7d\x7d" == utf8 "\x7b\"level\":9\x7d") =
      false := by
    decide
  have reads : fromSlice (utf8 "\x7b\"level\":9\x7d") = some value := by
    simp [fromSlice, listed]
  have readsWrapped : fromSlice (utf8 "\x7b\"value\":\x7b\"level\":9\x7d\x7d") =
      some (writeRecordValue value) := by
    simp [fromSlice, listed, List.lookup_cons, other]
  have documented : Documented fromSlice value (utf8 "\x7b\"level\":9\x7d")
      (utf8 "\x7b\"value\":\x7b\"level\":9\x7d\x7d") := by
    constructor
    · intro read same
      rw [← Option.some.inj (reads.symm.trans same)]
    · intro read same
      exact ⟨value, (Option.some.inj (readsWrapped.symm.trans same)).symm⟩
    · intro isNull
      simp [value] at isNull
  exact (write_exact_iff documented (by decide)).mpr
    ⟨reads, readsWrapped, by simp [value, Value.get]⟩

/-- A record with a field `value`, mirrored as it is: the field replaces it. -/
theorem mirrored_part :
    let value := Value.object [("value", .number "21.5"), ("unit", .string "C")]
    let serialized := utf8 "\x7b\"value\":21.5,\"unit\":\"C\"\x7d"
    let session : AimxSession := ⟨.readWrite ["cfg"]⟩
    pumpedWrite "cfg" serialized = .write "cfg" serialized ∧
      (session.write (listed [(serialized, value)]) (fun _ _ => .ok ()) "cfg" serialized).1 =
        some ("cfg", .number "21.5") ∧ Value.number "21.5" ≠ value := by
  intro value serialized session
  have reads : listed [(serialized, value)] serialized = some value := by simp [listed]
  refine ⟨rfl, ?_, by simp [value]⟩
  rw [write_writable (by decide) reads]
  rfl

end AimxSession

end AimDb.Session.Aimx
