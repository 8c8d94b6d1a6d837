import AimDb.Cdr

/-!
# The layout of a value

Where each byte of an encoded value goes, apart from who writes it. The serializer
writes the little-endian image of this layout; the big-endian image is what a
writer of the other byte order sends.
-/

namespace AimDb.Cdr

open Layout

def utf8 (text : String) : List UInt8 := text.toUTF8.data.toList

/-- A `u32` length prefix. -/
def lengthCells (len pos : ℕ) : List Cell := aligned pos (leBytes 4 len)

def elements {element : Shape} (v : (Shape.seq element).Val) : List element.Val := v

mutual

def Shape.cells : (shape : Shape) → shape.Val → ℕ → List Cell
  | .bool, v, _ => [.raw [if (show Bool from v) then 1 else 0]]
  | .number kind, v, pos => aligned pos (leBytes kind.size v.toNat)
  | .str, v, pos => lengthCells (String.utf8ByteSize v + 1) pos ++ [.raw (utf8 v ++ [0])]
  | .bytes, v, pos => lengthCells (List.length v) pos ++ [.raw v]
  | .unit, _, _ => []
  | .newtype inner, v, pos => inner.cells v pos
  | .seq element, v, pos =>
      let count := lengthCells (List.length v) pos
      count ++ sequence (fun value pos => element.cells value pos) v (pos + size count)
  | .tuple fields, v, pos => fields.cells v pos
  | .foreign _, _, _ => []

def Fields.cells : (fields : Fields) → fields.Val → ℕ → List Cell
  | .nil, _, _ => []
  | .cons first rest, v, pos =>
      let cells := first.cells v.1 pos
      cells ++ rest.cells v.2 (pos + size cells)

end

mutual

/-- The values CDR has an encoding for: every length prefix fits, and the elements
of a sequence take at least one byte each. -/
def Shape.Fits : (shape : Shape) → shape.Val → Prop
  | .str, v => String.utf8ByteSize v + 1 < 2 ^ 32
  | .bytes, v => List.length v < 2 ^ 32
  | .newtype inner, v => inner.Fits v
  | .seq element, v =>
      List.length v < 2 ^ 32 ∧
        ∀ value ∈ elements v, element.Fits value ∧ 0 < size (element.cells value 0)
  | .tuple fields, v => fields.Fits v
  | .foreign _, _ => False
  | .bool, _ => True
  | .number _, _ => True
  | .unit, _ => True

def Fields.Fits : (fields : Fields) → fields.Val → Prop
  | .nil, _ => True
  | .cons first rest, v => first.Fits v.1 ∧ rest.Fits v.2

end

namespace Serializer

/-- The serializer of a `Vec` after it wrote `cells`. -/
def wrote (ser : Serializer (List UInt8)) (cells : List Cell) : Serializer (List UInt8) :=
  ⟨ser.out ++ image .little cells, ser.pos + size cells⟩

@[simp] theorem wrote_nil (ser : Serializer (List UInt8)) : ser.wrote [] = ser := by
  simp [wrote]

@[simp] theorem wrote_wrote (ser : Serializer (List UInt8)) (first second : List Cell) :
    (ser.wrote first).wrote second = ser.wrote (first ++ second) := by
  simp [wrote, Nat.add_assoc]

theorem write_raw (ser : Serializer (List UInt8)) (bytes : List UInt8) :
    ser.write bytes = .ok (ser.wrote [.raw bytes]) := by
  simp [wrote, Cell.image, Cell.size]
  rfl

theorem primitive_aligned (ser : Serializer (List UInt8)) (bytes : List UInt8) :
    ser.primitive bytes = .ok (ser.wrote (aligned ser.pos bytes)) := by
  have align : ser.align bytes.length =
      .ok (ser.wrote [.padding (padding bytes.length ser.pos)]) := by
    rw [Serializer.align, write_raw]
    simp [wrote, Cell.image, Cell.size, padding]
  have write : (ser.wrote [.padding (padding bytes.length ser.pos)]).write bytes =
      .ok (ser.wrote (aligned ser.pos bytes)) := by
    rw [write_raw]
    simp [wrote, aligned, Cell.image, Cell.size, Order.arrange, Nat.add_assoc]
  rw [primitive, align]
  exact write

theorem length_cells (ser : Serializer (List UInt8)) {len : ℕ} (fits : len < 2 ^ 32) :
    ser.length len = .ok (ser.wrote (lengthCells len ser.pos)) := by
  rw [length, if_pos fits, primitive_aligned]
  rfl

theorem serializeStr_cells (ser : Serializer (List UInt8)) {v : String}
    (fits : v.utf8ByteSize + 1 < 2 ^ 32) :
    ser.serializeStr v = .ok (ser.wrote
      (lengthCells (v.utf8ByteSize + 1) ser.pos ++ [.raw (utf8 v ++ [0])])) := by
  rw [serializeStr, length_cells ser fits]
  change (do
    let ser ← (ser.wrote (lengthCells (v.utf8ByteSize + 1) ser.pos)).write (utf8 v)
    ser.write [0]) = _
  rw [write_raw]
  change ((ser.wrote (lengthCells (v.utf8ByteSize + 1) ser.pos)).wrote
    [.raw (utf8 v)]).write [0] = _
  rw [write_raw]
  simp [wrote, Cell.image, Cell.size, Nat.add_assoc]

theorem serializeBytes_cells (ser : Serializer (List UInt8)) {v : List UInt8}
    (fits : v.length < 2 ^ 32) :
    ser.serializeBytes v = .ok (ser.wrote (lengthCells v.length ser.pos ++ [.raw v])) := by
  rw [serializeBytes, length_cells ser fits]
  change (ser.wrote (lengthCells v.length ser.pos)).write v = _
  rw [write_raw, wrote_wrote]

/-- Elements one after another write their layouts one after another. -/
theorem foldlM_cells {α : Type}
    (serialize : α → Serializer (List UInt8) → Result (Serializer (List UInt8)))
    (cells : α → ℕ → List Cell) (values : List α)
    (each : ∀ value ∈ values, ∀ ser,
      serialize value ser = .ok (ser.wrote (cells value ser.pos)))
    (ser : Serializer (List UInt8)) :
    values.foldlM (fun ser value => serialize value ser) ser =
      .ok (ser.wrote (sequence cells values ser.pos)) := by
  induction values generalizing ser with
  | nil => rw [Layout.sequence, wrote_nil]; rfl
  | cons value rest inductionHypothesis =>
      rw [List.foldlM_cons, each value List.mem_cons_self ser]
      change rest.foldlM _ (ser.wrote (cells value ser.pos)) = _
      rw [inductionHypothesis (fun other mem => each other (List.mem_cons_of_mem _ mem)),
        wrote_wrote]
      rfl

end Serializer

mutual

theorem Shape.serialize_cells : (shape : Shape) → (v : shape.Val) → shape.Fits v →
    (ser : Serializer (List UInt8)) →
    shape.serialize v ser = .ok (ser.wrote (shape.cells v ser.pos))
  | .bool, v, _, ser => ser.write_raw [if (show Bool from v) then 1 else 0]
  | .number kind, v, _, ser => ser.primitive_aligned _
  | .str, v, fits, ser => ser.serializeStr_cells fits
  | .bytes, v, fits, ser => ser.serializeBytes_cells fits
  | .unit, v, _, ser => by
      rw [Shape.cells, Serializer.wrote_nil]
      rfl
  | .newtype inner, v, fits, ser => inner.serialize_cells v fits ser
  | .seq element, v, ⟨short, each⟩, ser => by
      rw [Shape.serialize, Serializer.serializeSeq, ser.length_cells short]
      change List.foldlM _ (ser.wrote (lengthCells (List.length v) ser.pos)) (elements v) = _
      rw [Serializer.foldlM_cells (fun value ser => element.serialize value ser)
        (fun value pos => element.cells value pos) (elements v)
        (fun value mem ser => element.serialize_cells value (each value mem).1 ser),
        Serializer.wrote_wrote]
      rfl
  | .tuple fields, v, fits, ser => fields.serialize_cells v fits ser
  | .foreign _, _, fits, _ => fits.elim

theorem Fields.serialize_cells : (fields : Fields) → (v : fields.Val) → fields.Fits v →
    (ser : Serializer (List UInt8)) →
    fields.serialize v ser = .ok (ser.wrote (fields.cells v ser.pos))
  | .nil, v, _, ser => by
      rw [Fields.cells, Serializer.wrote_nil]
      rfl
  | .cons first rest, v, ⟨fitsFirst, fitsRest⟩, ser => by
      rw [Fields.serialize, first.serialize_cells v.1 fitsFirst ser]
      change rest.serialize v.2 (ser.wrote (first.cells v.1 ser.pos)) = _
      rw [rest.serialize_cells v.2 fitsRest, Serializer.wrote_wrote]
      rfl

end

theorem toVec_cells (shape : Shape) (v : shape.Val) (fits : shape.Fits v) :
    toVec shape v = .ok (headerLE ++ image .little (shape.cells v 0)) := by
  rw [toVec, shape.serialize_cells v fits]
  rfl

theorem size_lengthCells_pos (len pos : ℕ) : 0 < size (lengthCells len pos) := by
  simp [lengthCells]

mutual

/-- Whether a value takes bytes does not depend on where it is put. -/
theorem Shape.size_pos_of_size_pos : (shape : Shape) → (v : shape.Val) → (p q : ℕ) →
    0 < size (shape.cells v p) → 0 < size (shape.cells v q)
  | .bool, v, _, _ => fun _ => by simp [Shape.cells, Cell.size]
  | .number kind, v, _, q => fun _ => by
      have positive : 0 < kind.size := by cases kind <;> decide
      rw [Shape.cells, size_aligned, length_leBytes]
      omega
  | .str, v, _, q => fun _ => by
      rw [Shape.cells, size_append]
      exact Nat.add_pos_left (size_lengthCells_pos _ _) _
  | .bytes, v, _, q => fun _ => by
      rw [Shape.cells, size_append]
      exact Nat.add_pos_left (size_lengthCells_pos _ _) _
  | .unit, _, _, _ => id
  | .newtype inner, v, p, q => inner.size_pos_of_size_pos v p q
  | .seq element, v, _, q => fun _ => by
      rw [Shape.cells, size_append]
      exact Nat.add_pos_left (size_lengthCells_pos _ _) _
  | .tuple fields, v, p, q => fields.size_pos_of_size_pos v p q
  | .foreign _, _, _, _ => id

theorem Fields.size_pos_of_size_pos : (fields : Fields) → (v : fields.Val) → (p q : ℕ) →
    0 < size (fields.cells v p) → 0 < size (fields.cells v q)
  | .nil, _, _, _ => id
  | .cons first rest, v, p, q => fun positive => by
      rw [Fields.cells, size_append] at positive ⊢
      rcases Nat.eq_zero_or_pos (size (first.cells v.1 p)) with empty | occupied
      · have later := rest.size_pos_of_size_pos v.2 _ (q + size (first.cells v.1 q))
          (by omega : 0 < size (rest.cells v.2 (p + size (first.cells v.1 p))))
        exact Nat.add_pos_right _ later
      · exact Nat.add_pos_left (first.size_pos_of_size_pos v.1 p q occupied) _

end

end AimDb.Cdr
