import AimDb.Cdr.Layout

/-!
# Reading a layout back

The deserializer reads the image of a layout in either byte order, wherever the
layout starts and whatever follows it.
-/

namespace AimDb.Cdr

open Layout

namespace Deserializer

def advance (de : Deserializer) (n : ℕ) : Deserializer := { de with pos := de.pos + n }

@[simp] theorem advance_pos (de : Deserializer) (n : ℕ) : (de.advance n).pos = de.pos + n := rfl

@[simp] theorem advance_bigEndian (de : Deserializer) (n : ℕ) :
    (de.advance n).bigEndian = de.bigEndian := rfl

@[simp] theorem advance_zero (de : Deserializer) : de.advance 0 = de := rfl

@[simp] theorem advance_advance (de : Deserializer) (m n : ℕ) :
    (de.advance m).advance n = de.advance (m + n) := by
  simp [advance, Nat.add_assoc]

structure Ahead (de : Deserializer) (stream : List UInt8) : Prop where
  inside : de.pos ≤ de.input.length
  stream : de.input.drop de.pos = stream

theorem Ahead.remaining {de : Deserializer} {stream : List UInt8} (ahead : de.Ahead stream) :
    de.remaining = stream.length := by
  rw [Deserializer.remaining, ← ahead.stream, List.length_drop]

theorem Ahead.skip {de : Deserializer} {bytes rest : List UInt8}
    (ahead : de.Ahead (bytes ++ rest)) : (de.advance bytes.length).Ahead rest := by
  have long := congrArg List.length ahead.stream
  rw [List.length_drop, List.length_append] at long
  have inside := ahead.inside
  refine ⟨?_, ?_⟩
  · simp only [advance_pos]
    change de.pos + bytes.length ≤ de.input.length
    omega
  · change de.input.drop (de.pos + bytes.length) = rest
    rw [← List.drop_drop, ahead.stream, List.drop_left]

theorem take_ahead {de : Deserializer} {bytes rest : List UInt8} (len : ℕ)
    (ahead : de.Ahead (bytes ++ rest)) (whole : len = bytes.length) :
    take len de = .ok (bytes, de.advance len) := by
  have long := congrArg List.length ahead.stream
  rw [List.length_drop, List.length_append] at long
  have inside := ahead.inside
  rw [take, if_pos (by omega), ahead.stream, whole, List.take_left]
  rfl

end Deserializer

open Deserializer

def isBig (order : Order) : Bool := order = .big

/-- `read` gets `value` back from its layout, in both byte orders. -/
def Reads {α : Type} (read : Read α) (value : α) (cells : ℕ → List Cell) : Prop :=
  ∀ order de rest, de.bigEndian = isBig order →
    de.Ahead (image order (cells de.pos) ++ rest) →
    read de = .ok (value, de.advance (size (cells de.pos)))

theorem Reads.skip {de : Deserializer} {order : Order} {cells : List Cell} {rest : List UInt8}
    (ahead : de.Ahead (image order cells ++ rest)) : (de.advance (size cells)).Ahead rest := by
  have skipped := ahead.skip
  rwa [length_image] at skipped

theorem primitive_ahead {de : Deserializer} {order : Order} {bytes rest : List UInt8}
    (ahead : de.Ahead (image order (aligned de.pos bytes) ++ rest)) :
    primitive bytes.length de =
      .ok (order.arrange bytes, de.advance (size (aligned de.pos bytes))) := by
  have pad : de.Ahead (List.replicate (padding bytes.length de.pos) 0 ++
      (order.arrange bytes ++ rest)) := by
    simpa [aligned, Cell.image] using ahead
  have align : align bytes.length de = .ok ((), de.advance (padding bytes.length de.pos)) := by
    rw [Deserializer.align]
    change (take (padding bytes.length de.pos) de >>= fun read => .ok ((), read.2)) = _
    rw [take_ahead _ pad (by simp)]
    rfl
  have word := pad.skip
  rw [List.length_replicate] at word
  rw [primitive, align]
  change take bytes.length (de.advance (padding bytes.length de.pos)) = _
  rw [take_ahead _ word (by simp), advance_advance, size_aligned]

theorem reads_number (n value : ℕ) (fits : value < 256 ^ n) :
    Reads (readNumber n) value fun pos => aligned pos (leBytes n value) := by
  intro order de rest bigEndian ahead
  have read := primitive_ahead ahead
  rw [length_leBytes] at read
  rw [readNumber, read]
  change Except.ok (if de.bigEndian = true then leValue (order.arrange (leBytes n value)).reverse
    else leValue (order.arrange (leBytes n value)), _) = _
  have number := leValue_leBytes_of_lt fits
  rw [bigEndian]
  cases order with
  | little => simp [isBig, Order.arrange, number]
  | big => simp [isBig, Order.arrange, number]

theorem reads_readU8 (byte : UInt8) : Reads readU8 byte fun _ => [.raw [byte]] := by
  intro order de rest _ ahead
  have bytes : de.Ahead ([byte] ++ rest) := ahead
  rw [readU8, take_ahead 1 bytes rfl]
  rfl

theorem readLength_ahead {de : Deserializer} {order : Order} {len : ℕ} {rest : List UInt8}
    (bigEndian : de.bigEndian = isBig order)
    (ahead : de.Ahead (image order (lengthCells len de.pos) ++ rest)) (short : len < 2 ^ 32)
    (enough : len ≤ rest.length) :
    readLength de = .ok (len, de.advance (size (lengthCells len de.pos))) := by
  have read := reads_number 4 len (by omega) order de rest bigEndian ahead
  have left := (Reads.skip ahead).remaining
  rw [readLength, read]
  change (if len > (de.advance (size (lengthCells len de.pos))).remaining then _ else _) = _
  rw [left, if_neg (by omega)]
  rfl

theorem reads_bool (v : Bool) :
    Reads deserializeBool v fun _ => [.raw [if v then 1 else 0]] := by
  intro order de rest bigEndian ahead
  rw [deserializeBool, reads_readU8 _ order de rest bigEndian ahead]
  cases v <;> rfl

theorem reads_bytes {v : List UInt8} (short : v.length < 2 ^ 32) :
    Reads deserializeBytes v fun pos => lengthCells v.length pos ++ [.raw v] := by
  intro order de rest bigEndian ahead
  rw [image_append, List.append_assoc] at ahead
  have body := Reads.skip ahead
  rw [image_cons, image_nil, List.append_nil] at ahead body
  rw [deserializeBytes, readLength_ahead bigEndian ahead short (by simp [Cell.image])]
  change take v.length _ = _
  rw [take_ahead v.length body rfl, advance_advance, size_append]
  rfl

theorem fromUTF8?_utf8 (text : String) :
    String.fromUTF8? ⟨(utf8 text).toArray⟩ = some text := by
  rw [utf8, Array.toArray_toList]
  exact dif_pos text.isValidUTF8

theorem length_utf8 (text : String) : (utf8 text).length = text.utf8ByteSize := by
  rw [utf8, Array.length_toList]
  rfl

theorem readStr_of {de counted after : Deserializer} {len : ℕ} {bytes : List UInt8}
    {text : String} (length : readLength de = .ok (len, counted)) (some : len ≠ 0)
    (taken : take len counted = .ok (bytes, after)) (nul : bytes.drop (len - 1) = [0])
    (valid : String.fromUTF8? ⟨(bytes.take (len - 1)).toArray⟩ = .some text) :
    readStr de = .ok (text, after) := by
  simp only [readStr, length, taken, nul, valid, bind, Except.bind, if_neg some]
  rfl

theorem reads_str {v : String} (short : v.utf8ByteSize + 1 < 2 ^ 32) :
    Reads readStr v fun pos => lengthCells (v.utf8ByteSize + 1) pos ++ [.raw (utf8 v ++ [0])] := by
  intro order de rest bigEndian ahead
  rw [image_append, List.append_assoc] at ahead
  have body := Reads.skip ahead
  rw [image_cons, image_nil, List.append_nil] at ahead body
  have long : (utf8 v ++ [0]).length = v.utf8ByteSize + 1 := by
    rw [List.length_append, length_utf8, List.length_singleton]
  have enough : v.utf8ByteSize + 1 ≤
      (Cell.image order (.raw (utf8 v ++ [0])) ++ rest).length := by
    rw [List.length_append, Cell.image, long]
    omega
  have nul : (utf8 v ++ [0]).drop (v.utf8ByteSize + 1 - 1) = [0] := by
    rw [Nat.add_sub_cancel, ← length_utf8, List.drop_left]
  have text : String.fromUTF8? ⟨((utf8 v ++ [0]).take (v.utf8ByteSize + 1 - 1)).toArray⟩ =
      some v := by
    rw [Nat.add_sub_cancel, ← length_utf8, List.take_left, fromUTF8?_utf8]
  have read := readStr_of (readLength_ahead bigEndian ahead short enough) (Nat.succ_ne_zero _)
    (take_ahead _ body long.symm) nul text
  rw [read]
  change Except.ok (v, (de.advance _).advance _) = .ok (v, de.advance (size (_ ++ _)))
  rw [advance_advance, size_append]
  simp only [size_cons, size_nil, Cell.size, long, Nat.add_zero]

theorem aligned_single (order : Order) (pos n value : ℕ) (one : n = 1) :
    image order (aligned pos (leBytes n value)) = [UInt8.ofNat value] ∧
      size (aligned pos (leBytes n value)) = 1 := by
  subst one
  cases order <;> simp [aligned, leBytes, padding, Nat.mod_one, Cell.image, Cell.size,
    Order.arrange]

theorem reads_kind (kind : Number) (v : BitVec (8 * kind.size)) :
    Reads kind.deserialize v fun pos => aligned pos (leBytes kind.size v.toNat) := by
  intro order de rest bigEndian ahead
  have bound : v.toNat < 256 ^ kind.size := by
    have small := v.isLt
    rwa [Nat.pow_mul] at small
  have wide := reads_number kind.size v.toNat bound order de rest bigEndian ahead
  have single := aligned_single order de.pos kind.size v.toNat
  cases kind with
  | i8 | u8 =>
      obtain ⟨byte, one⟩ := single rfl
      beta_reduce at ahead ⊢
      have read := reads_readU8 (UInt8.ofNat v.toNat) order de rest bigEndian
        (by rw [byte] at ahead; exact ahead)
      have back : BitVec.ofNat (8 * 1) (UInt8.ofNat v.toNat).toNat = v := by
        apply BitVec.eq_of_toNat_eq
        have small := v.isLt
        simp [Number.size] at small ⊢
        omega
      rw [Number.deserialize, read, one]
      exact congrArg (fun v => Except.ok (v, _)) back
  | i16 | i32 | i64 | u16 | u32 | u64 | f32 | f64 =>
      rw [Number.deserialize]
      · rw [wide]
        change Except.ok (BitVec.ofNat _ v.toNat, _) = _
        rw [BitVec.ofNat_toNat, BitVec.setWidth_eq]
      all_goals exact fun impossible => by cases impossible

theorem nextElement_succ {α : Type} (left : ℕ) (read : Read α) (de : Deserializer) :
    nextElement (left + 1) read de = (do
      let (value, de) ← read de
      return (some value, left, de)) := rfl

theorem collect_succ {α : Type} (read : Read α) (left : ℕ) (de : Deserializer) :
    collect read (left + 1) de = (do
      let (value, de) ← read de
      let (rest, de) ← collect read left de
      return (value :: rest, de)) := by
  rw [collect]
  beta_reduce
  rw [nextElement_succ]
  cases read de <;> rfl

theorem deserialize_cons (first : Shape) (rest : Fields) (left index : ℕ) (de : Deserializer) :
    (Fields.cons first rest).deserialize (left + 1) index de = (do
      let (value, de) ← first.deserialize de
      let (values, de) ← rest.deserialize left (index + 1) de
      return ((value, values), de)) := by
  rw [Fields.deserialize]
  simp only [nextElement_succ]
  cases first.deserialize de <;> rfl

theorem reads_collect {α : Type} (read : Read α) (cells : α → ℕ → List Cell)
    (values : List α) (each : ∀ value ∈ values, Reads read value (cells value)) :
    Reads (collect read values.length) values (sequence cells values) := by
  induction values with
  | nil =>
      intro order de rest _ _
      rfl
  | cons value values inductionHypothesis =>
      intro order de rest bigEndian ahead
      rw [Layout.sequence, image_append, List.append_assoc] at ahead
      have first := each value List.mem_cons_self order de _ bigEndian ahead
      have later := inductionHypothesis (fun other mem => each other (List.mem_cons_of_mem _ mem))
        order (de.advance (size (cells value de.pos))) rest bigEndian (Reads.skip ahead)
      rw [List.length_cons, collect_succ, first]
      change (do
        let (rest, de) ← collect read values.length (de.advance (size (cells value de.pos)))
        return (value :: rest, de)) = _
      rw [later]
      change Except.ok (value :: values, _) = _
      rw [advance_advance, Layout.sequence, size_append]
      rfl

mutual

theorem Shape.reads : (shape : Shape) → (v : shape.Val) → shape.Fits v →
    Reads shape.deserialize v (shape.cells v)
  | .bool, v, _ => reads_bool v
  | .number kind, v, _ => reads_kind kind v
  | .str, v, fits => reads_str fits
  | .bytes, v, fits => reads_bytes fits
  | .unit, _, _ => fun _ _ _ _ _ => rfl
  | .newtype inner, v, fits => inner.reads v fits
  | .seq element, v, ⟨short, each⟩ => by
      intro order de rest bigEndian ahead
      rw [Shape.cells, image_append, List.append_assoc] at ahead
      have body := Reads.skip ahead
      have enough := length_le_size_sequence (fun value pos => element.cells value pos) (elements v)
        (fun value mem pos => element.size_pos_of_size_pos value 0 pos (each value mem).2)
        (de.pos + size (lengthCells (List.length v) de.pos))
      have collected := reads_collect element.deserialize
        (fun value pos => element.cells value pos) (elements v)
        (fun value mem => element.reads value (each value mem).1) order
        (de.advance (size (lengthCells (List.length v) de.pos))) rest bigEndian body
      change (do
        let (len, de) ← readLength de
        collect element.deserialize len de) = _
      rw [readLength_ahead bigEndian ahead short]
      · change collect element.deserialize (elements v).length _ = _
        rw [collected, advance_advance, Shape.cells, size_append]
        rfl
      · rw [List.length_append, length_image]
        exact le_trans enough (Nat.le_add_right _ _)
  | .tuple fields, v, fits => fields.reads v fits 0
  | .foreign _, _, fits => fits.elim

theorem Fields.reads :
    (fields : Fields) → (v : fields.Val) → fields.Fits v → (index : ℕ) →
    Reads (fields.deserialize fields.length index) v (fields.cells v)
  | .nil, _, _, _ => fun _ _ _ _ _ => rfl
  | .cons first rest, v, ⟨fitsFirst, fitsRest⟩, index => by
      intro order de after bigEndian ahead
      rw [Fields.cells, image_append, List.append_assoc] at ahead
      have head := first.reads v.1 fitsFirst order de _ bigEndian ahead
      have tail := rest.reads v.2 fitsRest (index + 1) order
        (de.advance (size (first.cells v.1 de.pos))) after bigEndian (Reads.skip ahead)
      rw [Fields.length, deserialize_cons, head]
      change (do
        let (values, de) ← rest.deserialize rest.length (index + 1)
          (de.advance (size (first.cells v.1 de.pos)))
        return ((v.1, values), de)) = _
      rw [tail]
      change Except.ok ((v.1, v.2), _) = _
      rw [advance_advance, Fields.cells, size_append]
      rfl

end

theorem fromBytes_image (shape : Shape) (v : shape.Val) (fits : shape.Fits v) (order : Order)
    (options : UInt8 × UInt8) (rest : List UInt8) :
    fromBytes shape ([0x00, if isBig order then 0x00 else 0x01, options.1, options.2] ++
      image order (shape.cells v 0) ++ rest) = .ok v := by
  have ahead : Ahead ⟨image order (shape.cells v 0) ++ rest, 0, isBig order⟩
      (image order (shape.cells v 0) ++ rest) := ⟨Nat.zero_le _, rfl⟩
  have read := shape.reads v fits order _ rest rfl ahead
  cases order with
  | little => exact congrArg (Except.map Prod.fst) read
  | big => exact congrArg (Except.map Prod.fst) read

/-- What is encoded is decoded to the same value: from the bytes of `toVec`, and from
the big-endian image of the same layout, whatever bytes follow. -/
theorem fromBytes_toVec (shape : Shape) (v : shape.Val) (fits : shape.Fits v) :
    toVec shape v = .ok (headerLE ++ image .little (shape.cells v 0)) ∧
    (toVec shape v >>= fromBytes shape) = .ok v ∧
    ∀ (options : UInt8 × UInt8) (order : Order) (rest : List UInt8),
      fromBytes shape ([0x00, if isBig order then 0x00 else 0x01, options.1, options.2] ++
        image order (shape.cells v 0) ++ rest) = .ok v := by
  have written := toVec_cells shape v fits
  refine ⟨written, ?_, fun options order rest =>
    fromBytes_image shape v fits order options rest⟩
  rw [written]
  have read := fromBytes_image shape v fits .little (0x00, 0x00) []
  rwa [List.append_nil] at read

/-- A byte, a string with a NUL inside, and a sequence of half words. -/
def nested : Shape :=
  .tuple (.cons (.number .u8) (.cons .str (.cons (.seq (.number .u16)) .nil)))

def nestedValue : nested.Val := (7#8, "\x00", [1#16, 2#16], ())

theorem fromBytes_toVec_nested :
    (toVec nested nestedValue >>= fromBytes nested) = .ok nestedValue ∧
    toVec nested nestedValue =
      .ok [0, 1, 0, 0, 7, 0, 0, 0, 2, 0, 0, 0, 0, 0, 0, 0, 2, 0, 0, 0, 1, 0, 2, 0] ∧
    fromBytes nested
      [0, 0, 0, 0, 7, 0, 0, 0, 0, 0, 0, 2, 0, 0, 0, 0, 0, 0, 0, 2, 0, 1, 0, 2] =
      .ok nestedValue := by
  have short : String.utf8ByteSize "\x00" + 1 < 2 ^ 32 := by decide
  have fits : nested.Fits nestedValue := by
    refine ⟨trivial, short, ⟨Nat.lt_of_sub_eq_succ rfl,
      fun value _ => ⟨trivial, ?_⟩⟩, trivial⟩
    rw [Shape.cells, size_aligned]
    exact Nat.add_pos_right _ (by simp [Number.size])
  have little : image .little (nested.cells nestedValue 0) =
      [7, 0, 0, 0, 2, 0, 0, 0, 0, 0, 0, 0, 2, 0, 0, 0, 1, 0, 2, 0] := by decide
  have big : image .big (nested.cells nestedValue 0) =
      [7, 0, 0, 0, 0, 0, 0, 2, 0, 0, 0, 0, 0, 0, 0, 2, 0, 1, 0, 2] := by decide
  obtain ⟨written, back, read⟩ := fromBytes_toVec nested nestedValue fits
  rw [little] at written
  have readBig := read (0, 0) .big []
  rw [big] at readBig
  exact ⟨back, written, readBig⟩

theorem utf8ByteSize_replicate (n : ℕ) :
    (String.ofList (List.replicate n 'a')).utf8ByteSize = n := by
  induction n with
  | zero => rfl
  | succ n inductionHypothesis =>
      rw [List.replicate_succ, String.ofList_cons, String.utf8ByteSize_append,
        inductionHypothesis, Nat.add_comm]
      rfl

theorem toVec_longStr {text : String} (long : 2 ^ 32 ≤ text.utf8ByteSize + 1) :
    toVec .str text = .error .lengthOverflow := by
  have refused (ser : Serializer (List UInt8)) : ser.serializeStr text =
      .error .lengthOverflow := by
    rw [Serializer.serializeStr, Serializer.length, if_neg (by omega)]
    rfl
  change (do
    let ser ← Serializer.serializeStr ⟨headerLE, 0⟩ text
    return ser.out) = _
  rw [refused]
  rfl

/-- A length prefix has to count the NUL of a string as well. -/
theorem toVec_longest_str :
    (String.ofList (List.replicate (2 ^ 32 - 1) 'a')).utf8ByteSize < 2 ^ 32 ∧
    ¬ (toVec .str (String.ofList (List.replicate (2 ^ 32 - 1) 'a')) >>= fromBytes .str) =
      .ok (String.ofList (List.replicate (2 ^ 32 - 1) 'a')) := by
  have size := utf8ByteSize_replicate (2 ^ 32 - 1)
  generalize String.ofList (List.replicate (2 ^ 32 - 1) 'a') = text at size
  refine ⟨by omega, fun back => ?_⟩
  rw [toVec_longStr (by omega)] at back
  cases back

end AimDb.Cdr
