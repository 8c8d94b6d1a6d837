import AimDb.Json.Scan
import Mathlib.Algebra.Group.Nat.Defs

/-!
# What the envelope codec relies on in its JSON library

The library itself is a parameter.  Its laws are the documented behaviour the
codec is written against: strings are escaped where they have to be, a string
can be lent only when it carries no escape, and an object is read back into its
members with the verbatim text of each value.
-/

namespace AimDb.Session.Aimx

open AimDb.Json

structure SerdeJson where
  quoted : String → Bytes
  /-- `&str`, borrowed from the input. -/
  borrowedStr : Bytes → Option String
  /-- `&RawValue`, borrowed from the input. -/
  rawValue : Bytes → Option Bytes
  u64 : Bytes → Option UInt64
  bool : Bytes → Option Bool
  object : Bytes → Option (List (String × Bytes))
  quoted_value : ∀ s, IsValue (quoted s)
  quoted_head : ∀ s, (quoted s).head? = some quote
  /-- Control bytes never reach the output of the serializer. -/
  quoted_printable : ∀ s, ∀ b ∈ quoted s, 0x20 ≤ b
  borrowedStr_plain : ∀ s, IsPlain s → borrowedStr (quoted s) = some s
  borrowedStr_escaped : ∀ s, ¬ IsPlain s → borrowedStr (quoted s) = none
  rawValue_value : ∀ bytes, IsValue bytes → IsUtf8 bytes → rawValue bytes = some bytes
  u64_decimal : ∀ n : UInt64, u64 (decimal n.toNat) = some n
  bool_boolean : ∀ b, bool (boolean b) = some b
  object_text : ∀ members : List (String × Bytes),
    (∀ m ∈ members, IsPlain m.1 ∧ IsValue m.2) → object (objectText members) = some members

namespace SerdeJson

def escapeByte (b : UInt8) : Bytes :=
  if IsPlainByte b then [b]
  else if b = quote ∨ b = backslash then [backslash, b]
  else if b = 0x08 then [backslash, 'b'.toUInt8]
  else if b = 0x09 then [backslash, 't'.toUInt8]
  else if b = 0x0a then [backslash, 'n'.toUInt8]
  else if b = 0x0c then [backslash, 'f'.toUInt8]
  else if b = 0x0d then [backslash, 'r'.toUInt8]
  else backslash :: utf8 "u00" ++ [hexDigit (b / 16), hexDigit (b % 16)]
where
  hexDigit (d : UInt8) : UInt8 := if d < 10 then 0x30 + d else 0x57 + d

def escaped (s : String) : Bytes := quote :: (utf8 s).flatMap escapeByte ++ [quote]

instance (priority := high) {holds : UInt8 → Prop} [DecidablePred holds] (bytes : Bytes) :
    Decidable (∀ b ∈ bytes, holds b) := List.decidableBAll holds bytes

/-- Lend the inside of a string literal that carries no escape. -/
def lendStr : Bytes → Option String
  | [] => none
  | b :: bytes =>
      if b = quote ∧ bytes.getLast? = some quote ∧ ∀ c ∈ bytes.dropLast, IsPlainByte c then
        fromUtf8? bytes.dropLast
      else none

/-- Read an unsigned number that fits 64 bits. -/
def readU64 (bytes : Bytes) : Option UInt64 :=
  if bytes ≠ [] ∧ (∀ b ∈ bytes, IsDigit b) ∧ decimalValue bytes < 2 ^ 64 then
    some (decimalValue bytes).toUInt64
  else none

/-- Lend a text that is passed over whole. -/
def lendRaw (bytes : Bytes) : Option Bytes :=
  if (takeValue ⟨0, .outside⟩ bytes).2 = [] then some bytes else none

def readBool (bytes : Bytes) : Option Bool :=
  if bytes = utf8 "true" then some true
  else if bytes = utf8 "false" then some false
  else none

theorem escapeByte_plain {b : UInt8} (plain : IsPlainByte b) : escapeByte b = [b] := by
  simp [escapeByte, plain]

theorem backslash_mem_escapeByte {b : UInt8} (special : ¬ IsPlainByte b) :
    backslash ∈ escapeByte b := by
  rw [escapeByte, if_neg special]
  repeat' split
  all_goals simp

theorem flatMap_escapeByte_plain {bytes : Bytes} (plain : ∀ b ∈ bytes, IsPlainByte b) :
    bytes.flatMap escapeByte = bytes := by
  induction bytes with
  | nil => rfl
  | cons b bytes ih =>
    simp [escapeByte_plain (plain b (by simp)), ih fun c mem => plain c (by simp [mem])]

theorem hexDigit_isHexDigit {d : UInt8} (small : d.toNat < 16) :
    IsHexDigit (escapeByte.hexDigit d) := by
  have each : ∀ n : Fin 16, IsHexDigit (escapeByte.hexDigit n.val.toUInt8) := by decide
  simpa using each ⟨d.toNat, small⟩

theorem isStringBody_escapeByte (b : UInt8) {rest : Bytes} (isBody : IsStringBody rest) :
    IsStringBody (escapeByte b ++ rest) := by
  rw [escapeByte]
  split
  · exact .plain ‹_› isBody
  split
  · rename_i special
    rcases special with rfl | rfl <;> exact .escape (by decide) isBody
  iterate 5
    split
    · exact .escape (by decide) isBody
  have bound := b.toNat_lt
  refine .unicode (by decide) (by decide) (hexDigit_isHexDigit ?_) (hexDigit_isHexDigit ?_) isBody
  · simp only [UInt8.toNat_div, UInt8.reduceToNat]
    omega
  · simp only [UInt8.toNat_mod, UInt8.reduceToNat]
    omega

theorem isStringBody_escaped (bytes : Bytes) : IsStringBody (bytes.flatMap escapeByte) := by
  induction bytes with
  | nil => exact .nil
  | cons b bytes ih => exact isStringBody_escapeByte b ih

theorem lendStr_escaped (s : String) :
    lendStr (escaped s) = if IsPlain s then some s else none := by
  simp only [escaped, List.cons_append, lendStr, List.getLast?_append, List.dropLast_concat]
  split_ifs with inside plain plain
  · rw [flatMap_escapeByte_plain plain, fromUtf8?_utf8]
  · obtain ⟨b, mem, special⟩ : ∃ b ∈ utf8 s, ¬ IsPlainByte b := by
      simpa [IsPlain] using plain
    have lent := inside.2.2 backslash
      (List.mem_flatMap.mpr ⟨b, mem, backslash_mem_escapeByte special⟩)
    exact absurd lent (by decide)
  · refine absurd ⟨trivial, by simp, ?_⟩ inside
    rwa [flatMap_escapeByte_plain plain]
  · rfl

theorem readU64_decimal (n : UInt64) : readU64 (decimal n.toNat) = some n := by
  obtain ⟨nonempty, digits⟩ := decimal_digits n.toNat
  rw [readU64, decimalValue_decimal, if_pos ⟨nonempty, digits, n.toNat_lt⟩]
  simp

/-- A library that behaves as documented, so the laws are consistent. -/
def reference : SerdeJson where
  quoted := escaped
  borrowedStr := lendStr
  rawValue := lendRaw
  u64 := readU64
  bool := readBool
  object := readObject
  quoted_value s := .string (isStringBody_escaped (utf8 s))
  quoted_head _ := rfl
  quoted_printable s := by
    have inside := (isStringBody_escaped (utf8 s)).printable
    simp only [escaped, List.cons_append, List.forall_mem_cons, List.forall_mem_append]
    exact ⟨by decide, inside, by decide⟩
  borrowedStr_plain s plain := by rw [lendStr_escaped, if_pos plain]
  borrowedStr_escaped s special := by rw [lendStr_escaped, if_neg special]
  rawValue_value bytes isValue _ := by rw [lendRaw, takeValue_whole isValue, if_pos rfl]
  u64_decimal := readU64_decimal
  bool_boolean b := by cases b <;> decide
  object_text _ wellFormed := readObject_objectText wellFormed

end SerdeJson

end AimDb.Session.Aimx
