import AimDb.Cdr

/-!
# Bounded and owned encoding agree

The same calls are made on a serializer over a slice and on one over a `Vec`.  As
long as the slice has room both have written the same bytes at the same position,
and once it is full the slice refuses whatever the other still takes.
-/

namespace AimDb.Cdr

open Layout (leBytes)

/-- A call that a `Serialize` impl makes.  Units, newtypes, tuples and structs ask
nothing of the serializer. -/
inductive Call
  | bool (v : Bool)
  | number (kind : Number) (v : BitVec (8 * kind.size))
  | str (v : String)
  | bytes (v : List UInt8)
  | seq (len : Option ℕ)
  | unsupported (what : String)

def Call.perform {W : Type} [Write W] : Call → Serializer W → Result (Serializer W)
  | .bool v, ser => ser.serializeBool v
  | .number kind v, ser => ser.primitive (leBytes kind.size v.toNat)
  | .str v, ser => ser.serializeStr v
  | .bytes v, ser => ser.serializeBytes v
  | .seq len, ser => ser.serializeSeq len
  | .unsupported what, _ => .error (.unsupported what)

def performAll {W : Type} [Write W] (calls : List Call) (ser : Serializer W) :
    Result (Serializer W) :=
  calls.foldlM (fun ser call => call.perform ser) ser

/-- What `value.serialize` does: its calls until one fails, and then perhaps an error
of its own. -/
structure Value where
  calls : List Call
  custom : Option String

namespace Value

def serialize {W : Type} [Write W] (value : Value) (ser : Serializer W) :
    Result (Serializer W) := do
  let ser ← performAll value.calls ser
  match value.custom with
  | none => return ser
  | some text => .error (.message text)

def toVec (value : Value) : Result (List UInt8) := do
  let ser ← value.serialize (⟨headerLE, 0⟩ : Serializer (List UInt8))
  return ser.out

/-- Encodes into `out`: the number of bytes written, and the slice after. -/
def toSlice (value : Value) (out : List UInt8) : Result (ℕ × List UInt8) :=
  if out.length < headerLE.length then .error .bufferTooSmall
  else do
    let ser ← value.serialize (⟨⟨out.drop headerLE.length, 0⟩, 0⟩ :
      Serializer SliceWriter)
    return (headerLE.length + ser.pos, headerLE ++ ser.out.buf)

end Value

mutual

def Shape.calls : (shape : Shape) → shape.Val → List Call
  | .bool, v => [.bool v]
  | .number kind, v => [.number kind v]
  | .str, v => [.str v]
  | .bytes, v => [.bytes v]
  | .unit, _ => []
  | .newtype inner, v => inner.calls v
  | .seq element, v =>
      .seq (some (List.length v)) :: List.flatMap (fun value => element.calls value) v
  | .tuple fields, v => fields.calls v
  | .foreign kind, _ => [.unsupported kind.what]

def Fields.calls : (fields : Fields) → fields.Val → List Call
  | .nil, _ => []
  | .cons first rest, v => first.calls v.1 ++ rest.calls v.2

end

section

variable {W : Type} [Write W]

theorem performAll_single (call : Call) (ser : Serializer W) :
    performAll [call] ser = call.perform ser := by
  rw [performAll, List.foldlM_cons]
  exact bind_pure _

theorem performAll_append (first second : List Call) (ser : Serializer W) :
    performAll (first ++ second) ser = (performAll first ser >>= performAll second) := by
  rw [performAll, List.foldlM_append]
  rfl

theorem performAll_flatMap {α : Type} {calls : α → List Call}
    {serialize : α → Serializer W → Result (Serializer W)}
    (same : ∀ value ser, serialize value ser = performAll (calls value) ser) (values : List α)
    (ser : Serializer W) :
    values.foldlM (fun ser value => serialize value ser) ser =
      performAll (values.flatMap calls) ser := by
  induction values generalizing ser with
  | nil => rfl
  | cons value values inductionHypothesis =>
      rw [List.flatMap_cons, performAll_append, List.foldlM_cons, same]
      exact bind_congr inductionHypothesis

mutual

theorem Shape.serialize_eq : (shape : Shape) → (v : shape.Val) → (ser : Serializer W) →
    shape.serialize v ser = performAll (shape.calls v) ser
  | .bool, v, ser => (performAll_single (.bool v) ser).symm
  | .number kind, v, ser => (performAll_single (.number kind v) ser).symm
  | .str, v, ser => (performAll_single (.str v) ser).symm
  | .bytes, v, ser => (performAll_single (.bytes v) ser).symm
  | .unit, _, _ => rfl
  | .newtype inner, v, ser => inner.serialize_eq v ser
  | .seq element, v, ser => by
      rw [Shape.serialize, Shape.calls, ← List.singleton_append, performAll_append,
        performAll_single]
      exact bind_congr fun ser =>
        performAll_flatMap (fun value ser => element.serialize_eq value ser) _ ser
  | .tuple fields, v, ser => fields.serialize_eq v ser
  | .foreign _, _, _ => rfl

theorem Fields.serialize_eq : (fields : Fields) → (v : fields.Val) → (ser : Serializer W) →
    fields.serialize v ser = performAll (fields.calls v) ser
  | .nil, _, _ => rfl
  | .cons first rest, v, ser => by
      rw [Fields.serialize, Fields.calls, performAll_append, first.serialize_eq v.1 ser]
      exact bind_congr fun ser => rest.serialize_eq v.2 ser

end

def Shape.value (shape : Shape) (v : shape.Val) : Value := ⟨shape.calls v, none⟩

theorem Shape.serialize_value (shape : Shape) (v : shape.Val) (ser : Serializer W) :
    (shape.value v).serialize ser = shape.serialize v ser := by
  rw [shape.serialize_eq]
  exact bind_pure _

end

theorem Shape.toVec_value (shape : Shape) (v : shape.Val) :
    (shape.value v).toVec = Cdr.toVec shape v := by
  rw [Value.toVec, shape.serialize_value]
  rfl

theorem Shape.toSlice_value (shape : Shape) (v : shape.Val) (out : List UInt8) :
    (shape.value v).toSlice out = Cdr.toSlice shape v out := by
  rw [Value.toSlice, shape.serialize_value]
  rfl

variable {front body : List UInt8}

/-- The serializer of a `Vec` that began with `front` and has written some bytes. -/
def vecAt (front written : List UInt8) : Serializer (List UInt8) :=
  ⟨front ++ written, written.length⟩

/-- The serializer of the slice `body` that has written some bytes: the position and
the writer's own length are the same. -/
def sliceAt (body written : List UInt8) : Serializer SliceWriter :=
  ⟨⟨written ++ body.drop written.length, written.length⟩, written.length⟩

/-- How the results of one call on the two compare. -/
inductive InStep (front body : List UInt8) :
    Result (Serializer (List UInt8)) → Result (Serializer SliceWriter) → Prop
  | both {written} : written.length ≤ body.length →
      InStep front body (.ok (vecAt front written)) (.ok (sliceAt body written))
  | full {written} : body.length < written.length →
      InStep front body (.ok (vecAt front written)) (.error .bufferTooSmall)
  | fail {error} : InStep front body (.error error) (.error error)
  | fullFirst {error} : InStep front body (.error error) (.error .bufferTooSmall)

/-- A call that keeps the two in step, and only ever adds to the `Vec`. -/
structure Mirrors (front body : List UInt8)
    (vec : Serializer (List UInt8) → Result (Serializer (List UInt8)))
    (slice : Serializer SliceWriter → Result (Serializer SliceWriter)) : Prop where
  inStep : ∀ written, written.length ≤ body.length →
    InStep front body (vec (vecAt front written)) (slice (sliceAt body written))
  grows : ∀ written, (∃ error, vec (vecAt front written) = .error error) ∨
    ∃ more, vec (vecAt front written) = .ok (vecAt front (written ++ more))

namespace Mirrors

theorem pure : Mirrors front body Except.ok Except.ok where
  inStep _ room := .both room
  grows written := .inr ⟨[], by rw [List.append_nil]⟩

theorem fail (error : Error) :
    Mirrors front body (fun _ => .error error) (fun _ => .error error) where
  inStep _ _ := .fail
  grows _ := .inl ⟨error, rfl⟩

theorem bind {vec vec' : Serializer (List UInt8) → Result (Serializer (List UInt8))}
    {slice slice' : Serializer SliceWriter → Result (Serializer SliceWriter)}
    (first : Mirrors front body vec slice) (second : Mirrors front body vec' slice') :
    Mirrors front body (fun ser => vec ser >>= vec') (fun ser => slice ser >>= slice') where
  inStep written room := by
    have stepped := first.inStep written room
    revert stepped
    generalize vec (vecAt front written) = owned, slice (sliceAt body written) = bounded
    intro stepped
    cases stepped with
    | both room => exact second.inStep _ room
    | @full written full =>
        rcases second.grows written with ⟨error, failed⟩ | ⟨more, grown⟩
        · change InStep front body (vec' (vecAt front written)) _
          rw [failed]
          exact .fullFirst
        · change InStep front body (vec' (vecAt front written)) _
          rw [grown]
          apply InStep.full
          rw [List.length_append]
          exact Nat.lt_add_right _ full
    | fail => exact .fail
    | fullFirst => exact .fullFirst
  grows written := by
    rcases first.grows written with ⟨error, failed⟩ | ⟨more, grown⟩
    · exact .inl ⟨error, by rw [failed]; rfl⟩
    · rcases second.grows (written ++ more) with ⟨error, failed⟩ | ⟨others, grownAgain⟩
      · exact .inl ⟨error, by rw [grown]; exact failed⟩
      · exact .inr ⟨more ++ others, by rw [grown, ← List.append_assoc]; exact grownAgain⟩

theorem writeAll_sliceAt {written bytes : List UInt8}
    (room : written.length + bytes.length ≤ body.length) :
    (sliceAt body written).out.writeAll bytes = .ok (sliceAt body (written ++ bytes)).out := by
  have whole : (written ++ body.drop written.length).length = body.length := by
    rw [List.length_append, List.length_drop]
    omega
  have behind : (written ++ body.drop written.length).drop (written.length + bytes.length) =
      body.drop (written ++ bytes).length := by
    rw [← List.drop_drop, List.drop_left, List.drop_drop, List.length_append]
  simp only [sliceAt, SliceWriter.writeAll, whole, if_pos room, List.take_left, behind,
    List.length_append]

theorem writeAll_full {written bytes : List UInt8} (room : written.length ≤ body.length)
    (full : body.length < written.length + bytes.length) :
    (sliceAt body written).out.writeAll bytes = .error .bufferTooSmall := by
  have whole : (written ++ body.drop written.length).length = body.length := by
    rw [List.length_append, List.length_drop]
    omega
  simp only [sliceAt, SliceWriter.writeAll, whole]
  exact if_neg (Nat.not_le.mpr full)

theorem write_vecAt (written bytes : List UInt8) :
    (vecAt front written).write bytes = .ok (vecAt front (written ++ bytes)) := by
  simp only [vecAt, List.length_append, ← List.append_assoc]
  rfl

theorem write (bytes : ℕ → List UInt8) :
    Mirrors front body (fun ser => ser.write (bytes ser.pos))
      (fun ser => ser.write (bytes ser.pos)) where
  inStep written room := by
    change InStep front body ((vecAt front written).write (bytes written.length))
      ((sliceAt body written).write (bytes written.length))
    rw [write_vecAt]
    by_cases fits : written.length + (bytes written.length).length ≤ body.length
    · have bounded : (sliceAt body written).write (bytes written.length) =
          .ok (sliceAt body (written ++ bytes written.length)) := by
        change ((sliceAt body written).out.writeAll _ >>= _) = _
        rw [writeAll_sliceAt fits]
        simp only [sliceAt, List.length_append]
        rfl
      rw [bounded]
      exact .both (by rwa [List.length_append])
    · have bounded : (sliceAt body written).write (bytes written.length) =
          .error .bufferTooSmall := by
        change ((sliceAt body written).out.writeAll _ >>= _) = _
        rw [writeAll_full room (Nat.not_le.mp fits)]
        rfl
      rw [bounded]
      exact .full (by rw [List.length_append]; exact Nat.not_le.mp fits)
  grows written := .inr ⟨bytes written.length, write_vecAt written _⟩

theorem align (alignment : ℕ) :
    Mirrors front body (fun ser => ser.align alignment) (fun ser => ser.align alignment) :=
  write fun pos => List.replicate ((alignment - pos % alignment) % alignment) 0

theorem primitive (bytes : List UInt8) :
    Mirrors front body (fun ser => ser.primitive bytes) (fun ser => ser.primitive bytes) :=
  (align bytes.length).bind (write fun _ => bytes)

theorem length (len : ℕ) :
    Mirrors front body (fun ser => ser.length len) (fun ser => ser.length len) := by
  by_cases fits : len < 2 ^ 32
  · simp only [Serializer.length, if_pos fits]
    exact primitive _
  · simp only [Serializer.length, if_neg fits]
    exact fail _

theorem perform (call : Call) : Mirrors front body call.perform call.perform := by
  cases call with
  | bool v => exact write fun _ => [if v then 1 else 0]
  | number kind v => exact primitive _
  | str v =>
      exact (length _).bind ((write fun _ => v.toUTF8.data.toList).bind (write fun _ => [0]))
  | bytes v => exact (length _).bind (write fun _ => v)
  | seq len =>
      cases len with
      | none => exact fail _
      | some len => exact length len
  | unsupported what => exact fail _

theorem performAll (calls : List Call) :
    Mirrors front body (Cdr.performAll calls) (Cdr.performAll calls) := by
  induction calls with
  | nil => exact pure
  | cons call calls inductionHypothesis => exact (perform call).bind inductionHypothesis

theorem serialize (value : Value) : Mirrors front body value.serialize value.serialize := by
  obtain ⟨calls, custom⟩ := value
  cases custom with
  | none => exact (performAll calls).bind pure
  | some text => exact (performAll calls).bind (fail _)

end Mirrors

namespace Value

/-- The owned encoding fits and is what the slice begins with; it does not fit and
the slice is too small; or there is none, and none in the slice. -/
theorem toSlice_cases (value : Value) (out : List UInt8) :
    (∃ bytes, value.toVec = .ok bytes ∧ bytes.length ≤ out.length ∧
        value.toSlice out = .ok (bytes.length, bytes ++ out.drop bytes.length)) ∨
      (∃ bytes, value.toVec = .ok bytes ∧ out.length < bytes.length ∧
        value.toSlice out = .error .bufferTooSmall) ∨
      (∃ error refused, value.toVec = .error error ∧ value.toSlice out = .error refused) := by
  have mirrors := @Mirrors.serialize headerLE (out.drop headerLE.length) value
  have start : value.toVec = (value.serialize (vecAt headerLE []) >>= fun ser => .ok ser.out) := rfl
  by_cases short : out.length < headerLE.length
  · have refused : value.toSlice out = .error .bufferTooSmall := if_pos short
    rcases mirrors.grows [] with ⟨error, failed⟩ | ⟨written, grown⟩
    · exact .inr (.inr ⟨error, _, by rw [start, failed]; rfl, refused⟩)
    · refine .inr (.inl ⟨headerLE ++ written, by rw [start, grown]; rfl, ?_, refused⟩)
      rw [List.length_append]
      exact Nat.lt_add_right _ short
  · have bounded : value.toSlice out =
        (value.serialize (sliceAt (out.drop headerLE.length) []) >>= fun ser =>
          .ok (headerLE.length + ser.pos, headerLE ++ ser.out.buf)) := if_neg short
    have stepped := mirrors.inStep [] (Nat.zero_le _)
    rw [start, bounded]
    generalize value.serialize (vecAt headerLE []) = owned at stepped ⊢
    generalize value.serialize (sliceAt (out.drop headerLE.length) []) = inSlice at stepped ⊢
    cases stepped with
    | @both written room =>
        rw [List.length_drop] at room
        refine .inl ⟨headerLE ++ written, rfl, ?_, ?_⟩
        · rw [List.length_append]
          omega
        · change Except.ok _ = Except.ok _
          simp only [sliceAt, List.length_append, List.drop_drop, List.append_assoc]
    | @full written full =>
        rw [List.length_drop] at full
        refine .inr (.inl ⟨headerLE ++ written, rfl, ?_, rfl⟩)
        rw [List.length_append]
        omega
    | fail => exact .inr (.inr ⟨_, _, rfl, rfl⟩)
    | fullFirst => exact .inr (.inr ⟨_, _, rfl, rfl⟩)

end Value

inductive SerializeError
  | bufferTooSmall
  | invalidData
  deriving DecidableEq, Repr

namespace LinkCodec

def encode (value : Value) : Except SerializeError (List UInt8) :=
  match value.toVec with
  | .ok bytes => .ok bytes
  | .error _ => .error .invalidData

def encodeInto (value : Value) (out : List UInt8) : Except SerializeError (ℕ × List UInt8) :=
  match value.toSlice out with
  | .ok used => .ok used
  | .error .bufferTooSmall => .error .bufferTooSmall
  | .error _ => .error .invalidData

end LinkCodec

inductive StagedPayload
  | owned (bytes : List UInt8)
  /-- The first `len` bytes of the scratch buffer. -/
  | scratch (len : ℕ) (buffer : List UInt8)

def StagedPayload.bytes : StagedPayload → List UInt8
  | .owned bytes => bytes
  | .scratch len buffer => buffer.take len

inductive SerializeFailure
  | owned (error : SerializeError)
  | into (error : SerializeError)
  | fallback (error : SerializeError)
  | invalidLength (len capacity : ℕ)
  deriving DecidableEq, Repr

/-- One outbound value: into the scratch buffer if the link has a serializer for it,
else, or when the value does not fit, through the owned serializer. -/
def serializeOutbound {T : Type} (serialize : T → Except SerializeError (List UInt8))
    (serializeInto : Option (T → List UInt8 → Except SerializeError (ℕ × List UInt8)))
    (value : T)
    (scratch : List UInt8) : Except SerializeFailure StagedPayload :=
  match serializeInto with
  | none =>
      match serialize value with
      | .ok bytes => .ok (.owned bytes)
      | .error error => .error (.owned error)
  | some serializeInto =>
      match serializeInto value scratch with
      | .ok (len, buffer) =>
          if len ≤ scratch.length then .ok (.scratch len buffer)
          else .error (.invalidLength len scratch.length)
      | .error .bufferTooSmall =>
          match serialize value with
          | .ok bytes => .ok (.owned bytes)
          | .error error => .error (.fallback error)
      | .error error => .error (.into error)

def wire (staged : Except SerializeFailure StagedPayload) : Option (List UInt8) :=
  staged.toOption.map StagedPayload.bytes

/-- How the bounded encoding of a value into `out` and its owned one agree. -/
structure Agrees (value : Value) (out : List UInt8) : Prop where
  ok_iff : (∃ n after, value.toSlice out = .ok (n, after)) ↔
    ∃ bytes, value.toVec = .ok bytes ∧ bytes.length ≤ out.length
  writes : ∀ bytes n after, value.toVec = .ok bytes → value.toSlice out = .ok (n, after) →
    n = bytes.length ∧ after.take n = bytes ∧ after.drop n = out.drop n
  tooSmall : ∀ bytes, value.toVec = .ok bytes → out.length < bytes.length →
    value.toSlice out = .error .bufferTooSmall
  /-- With `out` as its scratch buffer, a link sends the owned encoding. -/
  sends : wire (serializeOutbound LinkCodec.encode (some LinkCodec.encodeInto) value out) =
    value.toVec.toOption

theorem toSlice_agrees (value : Value) (out : List UInt8) : Agrees value out := by
  rcases value.toSlice_cases out with
    ⟨bytes, owned, fits, bounded⟩ | ⟨bytes, owned, long, bounded⟩ |
      ⟨error, refused, owned, bounded⟩
  · constructor
    · exact ⟨fun _ => ⟨bytes, owned, fits⟩, fun _ => ⟨_, _, bounded⟩⟩
    · intro bytes' n after owned' bounded'
      rw [owned] at owned'
      rw [bounded] at bounded'
      cases owned'
      cases bounded'
      exact ⟨rfl, List.take_left, List.drop_left⟩
    · intro bytes' owned' long
      rw [owned] at owned'
      cases owned'
      omega
    · simp [wire, serializeOutbound, LinkCodec.encodeInto, bounded, owned, fits, Except.toOption,
        StagedPayload.bytes]
  · constructor
    · constructor
      · rintro ⟨n, after, bounded'⟩
        rw [bounded] at bounded'
        cases bounded'
      · rintro ⟨bytes', owned', fits⟩
        rw [owned] at owned'
        cases owned'
        omega
    · intro bytes' n after _ bounded'
      rw [bounded] at bounded'
      cases bounded'
    · exact fun _ _ _ => bounded
    · simp [wire, serializeOutbound, LinkCodec.encode, LinkCodec.encodeInto, bounded, owned,
        Except.toOption, StagedPayload.bytes]
  · constructor
    · rw [owned, bounded]
      simp
    · intro bytes' n after _ bounded'
      rw [bounded] at bounded'
      cases bounded'
    · intro bytes' owned'
      rw [owned] at owned'
      cases owned'
    · have failed : LinkCodec.encode value = .error .invalidData := by rw [LinkCodec.encode, owned]
      have refusal : ∃ error, LinkCodec.encodeInto value out = .error error := by
        rw [LinkCodec.encodeInto, bounded]
        cases refused <;> exact ⟨_, rfl⟩
      obtain ⟨reason, refusal⟩ := refusal
      rw [owned]
      cases reason <;> simp [wire, serializeOutbound, refusal, failed, Except.toOption]

end AimDb.Cdr
