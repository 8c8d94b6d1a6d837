import AimDb.Layout.Cells

/-!
# CDR encoding

The serializer and the deserializer of XCDR1 bodies, driven by the calls that a
value of the serde data model makes. Both keep a position counted from the end of
the encapsulation header, from which alignment is measured.
-/

namespace AimDb.Cdr

open Layout (leBytes leValue)

inductive Error
  | bufferTooSmall
  | unexpectedEof
  | invalidHeader (id : UInt8 × UInt8)
  | invalidBool (byte : UInt8)
  | invalidUtf8
  | missingNul
  | lengthOverflow
  | unknownLength
  | unsupported (what : String)
  | message (text : String)
  deriving DecidableEq, Repr

abbrev Result (α : Type) := Except Error α

/-- Byte sink behind the serializer. -/
class Write (W : Type) where
  writeAll : W → List UInt8 → Result W

/-- `Vec<u8>`. -/
instance : Write (List UInt8) := ⟨fun out bytes => .ok (out ++ bytes)⟩

structure SliceWriter where
  buf : List UInt8
  len : ℕ

def SliceWriter.writeAll (writer : SliceWriter) (bytes : List UInt8) : Result SliceWriter :=
  let stop := writer.len + bytes.length
  if stop ≤ writer.buf.length then
    .ok ⟨writer.buf.take writer.len ++ bytes ++ writer.buf.drop stop, stop⟩
  else .error .bufferTooSmall

instance : Write SliceWriter := ⟨SliceWriter.writeAll⟩

structure Serializer (W : Type) where
  out : W
  pos : ℕ

namespace Serializer

variable {W : Type} [Write W]

def write (ser : Serializer W) (bytes : List UInt8) : Result (Serializer W) := do
  let out ← Write.writeAll ser.out bytes
  return ⟨out, ser.pos + bytes.length⟩

def align (ser : Serializer W) (alignment : ℕ) : Result (Serializer W) :=
  let padding := (alignment - ser.pos % alignment) % alignment
  ser.write (List.replicate padding 0)

def primitive (ser : Serializer W) (bytes : List UInt8) : Result (Serializer W) := do
  let ser ← ser.align bytes.length
  ser.write bytes

def length (ser : Serializer W) (len : ℕ) : Result (Serializer W) :=
  if len < 2 ^ 32 then ser.primitive (leBytes 4 len) else .error .lengthOverflow

def serializeBool (ser : Serializer W) (v : Bool) : Result (Serializer W) :=
  ser.write [if v then 1 else 0]

def serializeStr (ser : Serializer W) (v : String) : Result (Serializer W) := do
  let ser ← ser.length (v.utf8ByteSize + 1)
  let ser ← ser.write v.toUTF8.data.toList
  ser.write [0]

def serializeBytes (ser : Serializer W) (v : List UInt8) : Result (Serializer W) := do
  let ser ← ser.length v.length
  ser.write v

def serializeSeq (ser : Serializer W) (len : Option ℕ) : Result (Serializer W) :=
  match len with
  | some len => ser.length len
  | none => .error .unknownLength

end Serializer

structure Deserializer where
  input : List UInt8
  pos : ℕ
  bigEndian : Bool

abbrev Read (α : Type) := Deserializer → Result (α × Deserializer)

namespace Deserializer

def remaining (de : Deserializer) : ℕ := de.input.length - de.pos

def take (len : ℕ) : Read (List UInt8) := fun de =>
  let stop := de.pos + len
  if stop ≤ de.input.length then .ok ((de.input.drop de.pos).take len, { de with pos := stop })
  else .error .unexpectedEof

def align (alignment : ℕ) : Read Unit := fun de => do
  let padding := (alignment - de.pos % alignment) % alignment
  let (_, de) ← take padding de
  return ((), de)

def primitive (n : ℕ) : Read (List UInt8) := fun de => do
  let (_, de) ← align n de
  take n de

/-- `read_primitive!`: a number of `n` bytes in the byte order of the header. -/
def readNumber (n : ℕ) : Read ℕ := fun de => do
  let (bytes, de) ← primitive n de
  return (if de.bigEndian then leValue bytes.reverse else leValue bytes, de)

def readU8 : Read UInt8 := fun de => do
  let (bytes, de) ← take 1 de
  return (bytes.headD 0, de)

/-- A count beyond the remaining input is rejected before anything is read. -/
def readLength : Read ℕ := fun de => do
  let (len, de) ← readNumber 4 de
  if len > de.remaining then .error .unexpectedEof else return (len, de)

def readStr : Read String := fun de => do
  let (len, de) ← readLength de
  if len = 0 then return ("", de)
  let (bytes, de) ← take len de
  if bytes.drop (len - 1) ≠ [0] then .error .missingNul
  else
    match String.fromUTF8? ⟨(bytes.take (len - 1)).toArray⟩ with
    | some text => return (text, de)
    | none => .error .invalidUtf8

def deserializeBool : Read Bool := fun de => do
  let (byte, de) ← readU8 de
  if byte = 0 then return (false, de)
  else if byte = 1 then return (true, de)
  else .error (.invalidBool byte)

def deserializeBytes : Read (List UInt8) := fun de => do
  let (len, de) ← readLength de
  take len de

/-- `Elements::next_element_seed`, with the count of elements left. -/
def nextElement {α : Type} (left : ℕ) (read : Read α) (de : Deserializer) :
    Result (Option α × ℕ × Deserializer) :=
  match left with
  | 0 => .ok (none, 0, de)
  | left + 1 => do
      let (value, de) ← read de
      return (some value, left, de)

/-- The visitor of a `Vec`: elements until there are none left. -/
def collect {α : Type} (read : Read α) : ℕ → Read (List α)
  | 0 => fun de => .ok ([], de)
  | left + 1 => fun de => do
      let (element, _, de) ← nextElement (left + 1) read de
      match element with
      | none => return ([], de)
      | some value =>
          let (rest, de) ← collect read left de
          return (value :: rest, de)

end Deserializer

/-- Numbers of a fixed width; floats are their bit patterns. -/
inductive Number
  | i8 | i16 | i32 | i64 | u8 | u16 | u32 | u64 | f32 | f64
  deriving DecidableEq, Repr

/-- `size_of`. -/
def Number.size : Number → ℕ
  | .i8 | .u8 => 1
  | .i16 | .u16 => 2
  | .i32 | .u32 | .f32 => 4
  | .i64 | .u64 | .f64 => 8

inductive Foreign
  | char | option | enum | map
  deriving DecidableEq, Repr

def Foreign.what : Foreign → String
  | .char => "char"
  | .option => "Option"
  | .enum => "enum"
  | .map => "map"

mutual

/-- The types of the data model, as their serde impls see them. -/
inductive Shape
  | bool
  | number (kind : Number)
  | str
  | bytes
  | unit
  | newtype (inner : Shape)
  | seq (element : Shape)
  | tuple (fields : Fields)
  | foreign (kind : Foreign)

inductive Fields
  | nil
  | cons (first : Shape) (rest : Fields)

end

/-- `[T; N]`, which serde serializes as a tuple of `N` elements. -/
def Fields.replicate (element : Shape) : ℕ → Fields
  | 0 => .nil
  | n + 1 => .cons element (replicate element n)

def Shape.array (element : Shape) (n : ℕ) : Shape := .tuple (.replicate element n)

mutual

def Shape.Val : Shape → Type
  | .bool => Bool
  | .number kind => BitVec (8 * kind.size)
  | .str => String
  | .bytes => List UInt8
  | .unit => Unit
  | .newtype inner => inner.Val
  | .seq element => List element.Val
  | .tuple fields => fields.Val
  | .foreign _ => Unit

def Fields.Val : Fields → Type
  | .nil => Unit
  | .cons first rest => first.Val × rest.Val

end

def Fields.length : Fields → ℕ
  | .nil => 0
  | .cons _ rest => rest.length + 1

mutual

def Shape.serialize {W : Type} [Write W] :
    (shape : Shape) → shape.Val → Serializer W → Result (Serializer W)
  | .bool, v, ser => ser.serializeBool v
  | .number kind, v, ser => ser.primitive (leBytes kind.size v.toNat)
  | .str, v, ser => ser.serializeStr v
  | .bytes, v, ser => ser.serializeBytes v
  | .unit, _, ser => .ok ser
  | .newtype inner, v, ser => inner.serialize v ser
  | .seq element, v, ser => do
      let ser ← ser.serializeSeq (some (List.length v))
      List.foldlM (fun ser value => element.serialize value ser) ser v
  | .tuple fields, v, ser => fields.serialize v ser
  | .foreign kind, _, _ => .error (.unsupported kind.what)

def Fields.serialize {W : Type} [Write W] :
    (fields : Fields) → fields.Val → Serializer W → Result (Serializer W)
  | .nil, _, ser => .ok ser
  | .cons first rest, v, ser => do
      let ser ← first.serialize v.1 ser
      rest.serialize v.2 ser

end

/-- `i8` and `u8` are read as they are, without alignment. -/
def Number.deserialize (kind : Number) : Read (BitVec (8 * kind.size)) := fun de =>
  match kind with
  | .i8 | .u8 => do
      let (byte, de) ← Deserializer.readU8 de
      return (BitVec.ofNat _ byte.toNat, de)
  | kind => do
      let (number, de) ← Deserializer.readNumber kind.size de
      return (BitVec.ofNat _ number, de)

/-- The message of `invalid_length` when a visitor runs out of elements. -/
def invalidLength (index : ℕ) : Error := .message ("invalid length " ++ toString index)

mutual

def Shape.deserialize : (shape : Shape) → Read shape.Val
  | .bool => Deserializer.deserializeBool
  | .number kind => kind.deserialize
  | .str => Deserializer.readStr
  | .bytes => Deserializer.deserializeBytes
  | .unit => fun de => .ok ((), de)
  | .newtype inner => inner.deserialize
  | .seq element => fun de => do
      let (len, de) ← Deserializer.readLength de
      Deserializer.collect element.deserialize len de
  | .tuple fields => fields.deserialize fields.length 0
  | .foreign kind => fun _ => .error (.unsupported kind.what)

/-- The visitor of a tuple: field number `index` is taken from the `left` elements. -/
def Fields.deserialize : (fields : Fields) → (left index : ℕ) → Read fields.Val
  | .nil, _, _ => fun de => .ok ((), de)
  | .cons first rest, left, index => fun de => do
      let (element, left, de) ← Deserializer.nextElement left first.deserialize de
      match element with
      | none => .error (invalidLength index)
      | some value =>
          let (values, de) ← rest.deserialize left (index + 1) de
          return ((value, values), de)

end

/-- `HEADER_LE`. -/
def headerLE : List UInt8 := [0x00, 0x01, 0x00, 0x00]

def toVec (shape : Shape) (value : shape.Val) : Result (List UInt8) := do
  let ser ← shape.serialize value (⟨headerLE, 0⟩ : Serializer (List UInt8))
  return ser.out

/-- Encodes into `out`: the number of bytes written, and the slice after. -/
def toSlice (shape : Shape) (value : shape.Val) (out : List UInt8) : Result (ℕ × List UInt8) :=
  if out.length < headerLE.length then .error .bufferTooSmall
  else do
    let ser ← shape.serialize value
      (⟨⟨out.drop headerLE.length, 0⟩, 0⟩ : Serializer SliceWriter)
    return (headerLE.length + ser.pos, headerLE ++ ser.out.buf)

def fromBytes (shape : Shape) (bytes : List UInt8) : Result shape.Val :=
  match bytes with
  | a :: b :: _ :: _ :: body =>
      if (a, b) = (0x00, 0x01) then (shape.deserialize ⟨body, 0, false⟩).map Prod.fst
      else if (a, b) = (0x00, 0x00) then (shape.deserialize ⟨body, 0, true⟩).map Prod.fst
      else .error (.invalidHeader (a, b))
  | _ => .error .unexpectedEof

end AimDb.Cdr
