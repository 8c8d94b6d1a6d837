import Mathlib.Data.List.Basic
import Mathlib.Data.List.DropRight
import Mathlib.Data.Nat.Digits.Lemmas
import Mathlib.Tactic.Common

/-!
# JSON texts as bytes

The grammar of a single JSON value (RFC 8259), read on UTF-8 bytes, and the
compact spellings of the values a record frame is built from: decimal numbers,
booleans and objects.
-/

namespace AimDb.Json

abbrev Bytes := List UInt8

def utf8 (s : String) : Bytes := s.toUTF8.data.toList

def fromUtf8? (bytes : Bytes) : Option String := String.fromUTF8? ⟨bytes.toArray⟩

@[simp]
theorem fromUtf8?_utf8 (s : String) : fromUtf8? (utf8 s) = some s := by
  simp only [fromUtf8?, utf8, Array.toArray_toList, String.toUTF8_eq_toByteArray,
    String.fromUTF8?, dif_pos s.isValidUTF8]
  rfl

def quote : UInt8 := '"'.toUInt8
def backslash : UInt8 := '\\'.toUInt8
def comma : UInt8 := ','.toUInt8
def colon : UInt8 := ':'.toUInt8
def openBrace : UInt8 := '\x7b'.toUInt8
def closeBrace : UInt8 := '\x7d'.toUInt8
def openBracket : UInt8 := '['.toUInt8
def closeBracket : UInt8 := ']'.toUInt8

/-- A byte a JSON string carries as itself: not a control byte, quote or backslash. -/
def IsPlainByte (b : UInt8) : Prop := 0x20 ≤ b ∧ b ≠ quote ∧ b ≠ backslash

instance (b : UInt8) : Decidable (IsPlainByte b) :=
  inferInstanceAs (Decidable (0x20 ≤ b ∧ b ≠ quote ∧ b ≠ backslash))

def IsPlain (s : String) : Prop := ∀ b ∈ utf8 s, IsPlainByte b

instance (s : String) : Decidable (IsPlain s) :=
  inferInstanceAs (Decidable (∀ b ∈ utf8 s, IsPlainByte b))

def IsSpace (b : UInt8) : Prop := b = 0x20 ∨ b = 0x09 ∨ b = 0x0a ∨ b = 0x0d

def IsDigit (b : UInt8) : Prop := 0x30 ≤ b ∧ b ≤ 0x39

def IsHexDigit (b : UInt8) : Prop :=
  IsDigit b ∨ (0x41 ≤ b ∧ b ≤ 0x46) ∨ (0x61 ≤ b ∧ b ≤ 0x66)

instance (b : UInt8) : Decidable (IsDigit b) := inferInstanceAs (Decidable (_ ∧ _))

instance (b : UInt8) : Decidable (IsHexDigit b) := inferInstanceAs (Decidable (_ ∨ _))

def IsBlank (bytes : Bytes) : Prop := ∀ b ∈ bytes, IsSpace b

def IsDigits (bytes : Bytes) : Prop := bytes ≠ [] ∧ ∀ b ∈ bytes, IsDigit b

/-- The integer part: no superfluous leading zero. -/
def IsInteger (bytes : Bytes) : Prop :=
  bytes = ['0'.toUInt8] ∨ (IsDigits bytes ∧ bytes.head? ≠ some '0'.toUInt8)

def IsFraction (bytes : Bytes) : Prop :=
  ∃ digits, bytes = '.'.toUInt8 :: digits ∧ IsDigits digits

def IsExponent (bytes : Bytes) : Prop :=
  ∃ e sign digits, bytes = e :: (sign ++ digits) ∧ (e = 'e'.toUInt8 ∨ e = 'E'.toUInt8) ∧
    (sign = [] ∨ sign = ['+'.toUInt8] ∨ sign = ['-'.toUInt8]) ∧ IsDigits digits

def IsNumber (bytes : Bytes) : Prop :=
  ∃ sign int frac exp, bytes = sign ++ int ++ frac ++ exp ∧
    (sign = [] ∨ sign = ['-'.toUInt8]) ∧ IsInteger int ∧
    (frac = [] ∨ IsFraction frac) ∧ (exp = [] ∨ IsExponent exp)

/-- What stands between the quotes of a string. -/
inductive IsStringBody : Bytes → Prop where
  | nil : IsStringBody []
  | plain {b rest} : IsPlainByte b → IsStringBody rest → IsStringBody (b :: rest)
  | escape {e rest} : e ∈ utf8 "\"\\/bfnrt" → IsStringBody rest →
      IsStringBody (backslash :: e :: rest)
  | unicode {h₁ h₂ h₃ h₄ rest} : IsHexDigit h₁ → IsHexDigit h₂ → IsHexDigit h₃ →
      IsHexDigit h₄ → IsStringBody rest →
      IsStringBody (backslash :: 'u'.toUInt8 :: h₁ :: h₂ :: h₃ :: h₄ :: rest)

/-- The three recursive parts of the grammar. -/
inductive Part where
  | value
  | elements
  | members

inductive Derives : Part → Bytes → Prop where
  | literal {bytes} : bytes ∈ [utf8 "null", utf8 "true", utf8 "false"] → Derives .value bytes
  | number {bytes} : IsNumber bytes → Derives .value bytes
  | string {body} : IsStringBody body → Derives .value (quote :: body ++ [quote])
  | emptyArray {w} : IsBlank w → Derives .value (openBracket :: w ++ [closeBracket])
  | array {items} : Derives .elements items →
      Derives .value (openBracket :: items ++ [closeBracket])
  | emptyObject {w} : IsBlank w → Derives .value (openBrace :: w ++ [closeBrace])
  | object {items} : Derives .members items → Derives .value (openBrace :: items ++ [closeBrace])
  | lastElement {w₁ v w₂} : IsBlank w₁ → Derives .value v → IsBlank w₂ →
      Derives .elements (w₁ ++ v ++ w₂)
  | element {w₁ v w₂ items} : IsBlank w₁ → Derives .value v → IsBlank w₂ →
      Derives .elements items → Derives .elements (w₁ ++ v ++ w₂ ++ comma :: items)
  | lastMember {w₁ key w₂ w₃ v w₄} : IsBlank w₁ → IsStringBody key → IsBlank w₂ →
    IsBlank w₃ →
      Derives .value v → IsBlank w₄ →
      Derives .members (w₁ ++ (quote :: key ++ [quote]) ++ w₂ ++ colon :: (w₃ ++ v ++ w₄))
  | member {w₁ key w₂ w₃ v w₄ items} : IsBlank w₁ → IsStringBody key →
    IsBlank w₂ →
      IsBlank w₃ → Derives .value v → IsBlank w₄ → Derives .members items →
      Derives .members
        (w₁ ++ (quote :: key ++ [quote]) ++ w₂ ++ colon :: (w₃ ++ v ++ w₄) ++
          comma :: items)

def IsValue (bytes : Bytes) : Prop := Derives .value bytes

def IsUtf8 (bytes : Bytes) : Prop := ∃ s, utf8 s = bytes

theorem IsHexDigit.isPlainByte {b : UInt8} (hex : IsHexDigit b) : IsPlainByte b := by
  refine ⟨?_, ?_, ?_⟩
  · rcases hex with ⟨low, -⟩ | ⟨low, -⟩ | ⟨low, -⟩ <;>
      exact UInt8.le_trans (show (0x20 : UInt8) ≤ _ from by decide) low
  · rintro rfl
    exact absurd hex (by decide)
  · rintro rfl
    exact absurd hex (by decide)

theorem IsStringBody.printable {body : Bytes} (isBody : IsStringBody body) :
    ∀ b ∈ body, 0x20 ≤ b := by
  have escapes : ∀ e ∈ utf8 "\"\\/bfnrt", (0x20 : UInt8) ≤ e := by decide +kernel
  induction isBody with
  | nil => simp
  | plain isPlain _ ih => exact List.forall_mem_cons.mpr ⟨isPlain.1, ih⟩
  | escape isEscape _ ih =>
    exact List.forall_mem_cons.mpr
      ⟨by decide, List.forall_mem_cons.mpr ⟨escapes _ isEscape, ih⟩⟩
  | unicode h₁ h₂ h₃ h₄ _ ih =>
    simp only [List.forall_mem_cons]
    exact ⟨by decide, by decide, h₁.isPlainByte.1, h₂.isPlainByte.1, h₃.isPlainByte.1,
      h₄.isPlainByte.1, ih⟩

/-- A number in decimal, as an integer formatter writes it. -/
def decimal (n : ℕ) : Bytes :=
  if n = 0 then ['0'.toUInt8] else (Nat.digits 10 n).reverse.map fun d => 0x30 + d.toUInt8

def boolean (b : Bool) : Bytes := if b then utf8 "true" else utf8 "false"

/-- One member of an object, its key being plain. -/
def memberText (m : String × Bytes) : Bytes := (quote :: utf8 m.1 ++ [quote]) ++ colon :: m.2

/-- A compact object: no space, members in the given order. -/
def objectText (members : List (String × Bytes)) : Bytes :=
  openBrace :: [comma].intercalate (members.map memberText) ++ [closeBrace]

theorem digitByte_isDigit {d : ℕ} (small : d < 10) : IsDigit (0x30 + d.toUInt8) := by
  interval_cases d <;> exact ⟨by decide, by decide⟩

theorem decimal_digits (n : ℕ) : IsDigits (decimal n) := by
  rw [decimal]
  split
  · exact ⟨by simp, by decide +kernel⟩
  · rename_i positive
    refine ⟨by simpa using Nat.digits_ne_nil_iff_ne_zero.mpr positive, ?_⟩
    intro b isDigit
    obtain ⟨d, mem, rfl⟩ := List.mem_map.mp isDigit
    exact digitByte_isDigit (Nat.digits_lt_base (by decide) (List.mem_reverse.mp mem))

/-- The number a run of decimal digits spells. -/
def decimalValue (bytes : Bytes) : ℕ :=
  Nat.ofDigits 10 (bytes.reverse.map fun b => (b - 0x30).toNat)

theorem decimalValue_decimal (n : ℕ) : decimalValue (decimal n) = n := by
  rw [decimal]
  split
  · rename_i zero
    rw [zero]
    decide
  · have back : ∀ d ∈ Nat.digits 10 n, (0x30 + d.toUInt8 - 0x30).toNat = d := by
      intro d mem
      have small : d < 10 := Nat.digits_lt_base (by decide) mem
      interval_cases d <;> rfl
    rw [decimalValue, ← List.map_reverse, List.reverse_reverse, List.map_map, Function.comp_def]
    rw [List.map_congr_left back, List.map_id', Nat.ofDigits_digits]

theorem decimal_value (n : ℕ) : IsValue (decimal n) := by
  refine .number ⟨[], decimal n, [], [], by simp, .inl rfl, ?_, .inl rfl, .inl rfl⟩
  by_cases zero : n = 0
  · exact .inl (by rw [decimal, if_pos zero])
  · refine .inr ⟨decimal_digits n, ?_⟩
    -- the leading digit is the last one of the little-endian expansion
    have someDigits : Nat.digits 10 n ≠ [] := Nat.digits_ne_nil_iff_ne_zero.mpr zero
    have leading := Nat.getLast_digit_ne_zero 10 zero
    have small : (Nat.digits 10 n).getLast someDigits < 10 :=
      Nat.digits_lt_base (by decide) (List.getLast_mem someDigits)
    rw [decimal, if_neg zero, List.head?_map, List.head?_reverse,
      List.getLast?_eq_some_getLast someDigits]
    generalize (Nat.digits 10 n).getLast someDigits = d at leading small
    interval_cases d <;> first | exact absurd rfl leading | decide

theorem boolean_value (b : Bool) : IsValue (boolean b) := by
  cases b <;> exact .literal (by simp [boolean])

inductive Value where
  | null
  | bool (b : Bool)
  | number (text : String)
  | string (s : String)
  | array (items : List Value)
  | object (fields : List (String × Value))

namespace Value

def get (field : String) : Value → Option Value
  | .object fields => fields.lookup field
  | .null | .bool _ | .number _ | .string _ | .array _ => none

theorem sizeOf_lookup {field : String} {fields : List (String × Value)} {part : Value}
    (found : fields.lookup field = some part) : sizeOf part < sizeOf fields := by
  induction fields with
  | nil => exact nomatch found
  | cons first rest inductionHypothesis =>
      obtain ⟨name, value⟩ := first
      rw [List.lookup_cons] at found
      split at found
      · obtain rfl := Option.some.inj found
        simp
        omega
      · have smaller := inductionHypothesis found
        simp
        omega

theorem ne_of_get {field : String} {value part : Value} (found : value.get field = some part) :
    part ≠ value := by
  cases value with
  | object fields =>
      rintro rfl
      have smaller := sizeOf_lookup found
      rw [object.sizeOf_spec] at smaller
      omega
  | _ => exact nomatch found

mutual

def shape : Value → Value
  | .number _ => .number ""
  | .array items => .array (shapes items)
  | .object fields => .object (fieldShapes fields)
  | .null => .null
  | .bool b => .bool b
  | .string s => .string s

def shapes : List Value → List Value
  | [] => []
  | item :: items => item.shape :: shapes items

def fieldShapes : List (String × Value) → List (String × Value)
  | [] => []
  | (name, value) :: fields => (name, value.shape) :: fieldShapes fields

end

theorem lookup_fieldShapes (field : String) (fields : List (String × Value)) :
    (fieldShapes fields).lookup field = (fields.lookup field).map shape := by
  induction fields with
  | nil => rfl
  | cons first fields inductionHypothesis =>
      obtain ⟨name, value⟩ := first
      rw [fieldShapes, List.lookup_cons, List.lookup_cons]
      cases field == name with
      | true => rfl
      | false => exact inductionHypothesis

theorem get_shape (value : Value) (field : String) :
    value.shape.get field = (value.get field).map shape := by
  cases value with
  | object fields => exact lookup_fieldShapes field fields
  | _ => rfl

end Value

/-- Space as a JSON reader skips it around a value. -/
def isSpace (b : UInt8) : Bool := b = 0x20 || b = 0x09 || b = 0x0a || b = 0x0d

def trimmed (bytes : Bytes) : Bytes := (bytes.dropWhile isSpace).rdropWhile isSpace

theorem trimmed_of_ends {bytes : Bytes} (front : ∀ b ∈ bytes.head?, isSpace b = false)
    (back : ∀ b ∈ bytes.getLast?, isSpace b = false) : trimmed bytes = bytes := by
  cases bytes with
  | nil => rfl
  | cons first rest =>
      have keeps : (first :: rest).dropWhile isSpace = first :: rest := by
        rw [List.dropWhile_cons_of_neg (by simp [front first rfl])]
      rw [trimmed, keeps, List.rdropWhile_eq_self_iff]
      intro nonempty
      have last := back _ (List.getLast?_eq_some_getLast nonempty)
      simp [last]

theorem isNumber_spaceless {bytes : Bytes} (isNumber : IsNumber bytes) :
    ∀ b ∈ bytes, isSpace b = false := by
  have digit : ∀ {digits : Bytes}, IsDigits digits → ∀ b ∈ digits, isSpace b = false := by
    intro digits isDigits b inside
    obtain ⟨low, -⟩ := isDigits.2 b inside
    have above : (0x20 : UInt8) < b := UInt8.lt_of_lt_of_le (by decide : (0x20 : UInt8) < 0x30) low
    simp only [isSpace, Bool.or_eq_false_iff, decide_eq_false_iff_not]
    refine ⟨⟨⟨?_, ?_⟩, ?_⟩, ?_⟩ <;> rintro rfl <;> exact absurd above (by decide)
  obtain ⟨sign, int, frac, exp, rfl, isSign, isInt, isFrac, isExp⟩ := isNumber
  simp only [List.forall_mem_append]
  refine ⟨⟨⟨?_, ?_⟩, ?_⟩, ?_⟩
  · rcases isSign with rfl | rfl <;> decide +kernel
  · rcases isInt with rfl | ⟨digits, -⟩
    · decide +kernel
    · exact digit digits
  · rcases isFrac with rfl | ⟨digits, rfl, isDigits⟩
    · simp
    · exact List.forall_mem_cons.mpr ⟨by decide, digit isDigits⟩
  · rcases isExp with rfl | ⟨e, sign, digits, rfl, isE, isSign, isDigits⟩
    · simp
    · simp only [List.forall_mem_cons, List.forall_mem_append]
      refine ⟨?_, ?_, digit isDigits⟩
      · rcases isE with rfl | rfl <;> decide
      · rcases isSign with rfl | rfl | rfl <;> decide +kernel

theorem isNumber_ne_nil {bytes : Bytes} (isNumber : IsNumber bytes) : bytes ≠ [] := by
  obtain ⟨sign, int, frac, exp, rfl, -, isInt, -, -⟩ := isNumber
  rcases isInt with rfl | ⟨⟨some, -⟩, -⟩
  · simp
  · simp [some]

theorem value_ends {bytes : Bytes} (isValue : IsValue bytes) :
    bytes ≠ [] ∧ (∀ b ∈ bytes.head?, isSpace b = false) ∧
      ∀ b ∈ bytes.getLast?, isSpace b = false := by
  have enclosed {first last : UInt8} {inside : Bytes} (opens : isSpace first = false)
      (closes : isSpace last = false) : first :: inside ++ [last] ≠ [] ∧
        (∀ b ∈ (first :: inside ++ [last]).head?, isSpace b = false) ∧
          ∀ b ∈ (first :: inside ++ [last]).getLast?, isSpace b = false := by
    refine ⟨by simp, ?_, ?_⟩
    · simpa using opens
    · simpa [List.getLast?_cons] using closes
  cases isValue with
  | literal isLiteral =>
      simp only [List.mem_cons, List.not_mem_nil, or_false] at isLiteral
      rcases isLiteral with rfl | rfl | rfl <;> decide +kernel
  | number isNumber =>
      refine ⟨?_, ?_, ?_⟩
      · exact isNumber_ne_nil isNumber
      · exact fun b inside => isNumber_spaceless isNumber b (List.mem_of_mem_head? inside)
      · exact fun b inside => isNumber_spaceless isNumber b (List.mem_of_getLast? inside)
  | string => exact enclosed (by decide) (by decide)
  | emptyArray => exact enclosed (by decide) (by decide)
  | array => exact enclosed (by decide) (by decide)
  | emptyObject => exact enclosed (by decide) (by decide)
  | object => exact enclosed (by decide) (by decide)

theorem trimmed_value {bytes : Bytes} (isValue : IsValue bytes) : trimmed bytes = bytes :=
  trimmed_of_ends (value_ends isValue).2.1 (value_ends isValue).2.2

theorem isSpace_iff {b : UInt8} : isSpace b = true ↔ IsSpace b := by
  simp [isSpace, IsSpace, or_assoc]

theorem isSpace_of_isBlank {bytes : Bytes} (blank : IsBlank bytes) :
    ∀ b ∈ bytes, isSpace b = true :=
  fun b mem => isSpace_iff.mpr (blank b mem)

theorem trimmed_append {before value rest : Bytes} (blankBefore : IsBlank before)
    (isValue : IsValue value) (blankRest : IsBlank rest) :
    trimmed (before ++ value ++ rest) = value := by
  obtain ⟨nonempty, front, back⟩ := value_ends isValue
  obtain ⟨first, inside, rfl⟩ := List.exists_cons_of_ne_nil nonempty
  have behind : (before ++ (first :: inside) ++ rest).dropWhile isSpace =
      first :: inside ++ rest := by
    rw [List.append_assoc, List.dropWhile_append_of_pos (isSpace_of_isBlank blankBefore),
      List.cons_append, List.dropWhile_cons_of_neg (by simp [front first rfl])]
  have reversed : ∀ b ∈ rest.reverse, isSpace b = true :=
    fun b mem => isSpace_of_isBlank blankRest b (List.mem_reverse.mp mem)
  have whole := trimmed_value isValue
  rw [trimmed, List.dropWhile_cons_of_neg (by simp [front first rfl])] at whole
  rw [trimmed, behind, List.rdropWhile, List.reverse_append,
    List.dropWhile_append_of_pos reversed]
  exact whole

end AimDb.Json
