import AimDb.Json.Text

/-!
# Bytes as hexadecimal digits
-/

namespace AimDb.Hex

open Json (Bytes utf8)

def digits : List Char := "0123456789abcdef".toList

def digit (n : UInt8) : Char := digits.getD n.toNat '0'

def hex (bytes : Bytes) : String :=
  String.ofList (bytes.flatMap fun b : UInt8 => [digit (b >>> 4), digit (b &&& 0x0f)])

def nibble (c : UInt8) : Option UInt8 :=
  if '0'.toUInt8 ≤ c ∧ c ≤ '9'.toUInt8 then some (c - '0'.toUInt8)
  else if 'a'.toUInt8 ≤ c ∧ c ≤ 'f'.toUInt8 then some (c - 'a'.toUInt8 + 10)
  else if 'A'.toUInt8 ≤ c ∧ c ≤ 'F'.toUInt8 then some (c - 'A'.toUInt8 + 10)
  else none

/-- Lowercase or uppercase digits to bytes, two digits a byte. -/
def unhexPairs : Bytes → Option Bytes
  | [] => some []
  | [_] => none
  | hi :: lo :: rest => do
      let hi ← nibble hi
      let lo ← nibble lo
      let rest ← unhexPairs rest
      return (hi <<< 4 ||| lo) :: rest

def digitBytes (b : UInt8) : Bytes := [(digit (b >>> 4)).toUInt8, (digit (b &&& 0x0f)).toUInt8]

theorem utf8_ofList (chars : List Char) :
    utf8 (String.ofList chars) = chars.flatMap String.utf8EncodeChar := by
  simp [utf8, List.utf8Encode]

theorem digit_ascii (n : UInt8) : String.utf8EncodeChar (digit n) = [(digit n).toUInt8] := by
  have all : digits.all (fun c => String.utf8EncodeChar c == [c.toUInt8]) = true := by decide
  have mem : digit n ∈ digits := by
    rw [digit, List.getD_eq_getElem?_getD]
    cases found : digits[n.toNat]? with
    | none => exact List.mem_cons_self
    | some c => exact List.mem_of_getElem? found
  exact eq_of_beq (List.all_eq_true.mp all _ mem)

theorem utf8_hex (bytes : Bytes) : utf8 (hex bytes) = bytes.flatMap digitBytes := by
  rw [hex, utf8_ofList, List.flatMap_assoc]
  refine List.flatMap_congr fun b _ => ?_
  rw [List.flatMap_cons, List.flatMap_cons, digit_ascii, digit_ascii]
  rfl

theorem length_utf8_hex (bytes : Bytes) : (utf8 (hex bytes)).length = 2 * bytes.length := by
  rw [utf8_hex]
  induction bytes with
  | nil => rfl
  | cons b bytes inductionHypothesis =>
      rw [List.flatMap_cons, List.length_append, inductionHypothesis, List.length_cons, digitBytes]
      simp
      omega

theorem unhex_byte (b : UInt8) (rest : Bytes) :
    unhexPairs (digitBytes b ++ rest) = (unhexPairs rest).map (b :: ·) := by
  have all : ∀ n : Fin 256,
      nibble (digit (UInt8.ofNat n.val >>> 4)).toUInt8 = some (UInt8.ofNat n.val >>> 4) ∧
      nibble (digit (UInt8.ofNat n.val &&& 0x0f)).toUInt8 = some (UInt8.ofNat n.val &&& 0x0f) ∧
      ((UInt8.ofNat n.val >>> 4) <<< 4 ||| (UInt8.ofNat n.val &&& 0x0f)) = UInt8.ofNat n.val := by
    decide +kernel
  obtain ⟨hi, lo, both⟩ := all ⟨b.toNat, b.toNat_lt⟩
  simp only [UInt8.ofNat_toNat] at hi lo both
  rw [digitBytes, List.cons_append, List.cons_append, List.nil_append, unhexPairs, hi, lo]
  simp only [Option.bind_eq_bind, Option.bind_some, both]
  cases unhexPairs rest with
  | none => rfl
  | some bytes => rfl

theorem unhexPairs_hex (bytes : Bytes) : unhexPairs (utf8 (hex bytes)) = some bytes := by
  rw [utf8_hex]
  induction bytes with
  | nil => rfl
  | cons b bytes inductionHypothesis =>
      rw [List.flatMap_cons, unhex_byte, inductionHypothesis]
      rfl

theorem length_of_unhexPairs {text bytes : Bytes} (read : unhexPairs text = some bytes) :
    text.length = 2 * bytes.length := by
  induction text using unhexPairs.induct generalizing bytes with
  | case1 =>
      obtain rfl := Option.some.inj read
      rfl
  | case2 c => cases read
  | case3 hi lo rest inductionHypothesis =>
      simp only [unhexPairs, Option.bind_eq_bind, Option.bind_eq_some_iff, Option.pure_def,
        Option.some.injEq] at read
      obtain ⟨_, -, _, -, tail, readTail, rfl⟩ := read
      rw [List.length_cons, List.length_cons, inductionHypothesis readTail, List.length_cons]
      omega

theorem hex_isPlain (bytes : Bytes) : Json.IsPlain (hex bytes) := by
  have all : ∀ n : Fin 256, (digitBytes (UInt8.ofNat n.val)).all
      (fun c => decide (Json.IsPlainByte c)) = true := by decide +kernel
  intro c mem
  rw [utf8_hex, List.mem_flatMap] at mem
  obtain ⟨b, -, digit⟩ := mem
  have plain := all ⟨b.toNat, b.toNat_lt⟩
  rw [UInt8.ofNat_toNat] at plain
  exact of_decide_eq_true (List.all_eq_true.mp plain c digit)

end AimDb.Hex
