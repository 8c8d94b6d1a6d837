import AimDb.Framing.Measured
import AimDb.Json.Text
import Mathlib.Tactic.SplitIfs

/-!
# Incremental MQTT packet framing

Bytes are pushed in and whole packets taken out.  A chunk is taken all or nothing,
so the reader needs a chunk of slack beside the largest packet.  The fixed header
is read with the `mountain-mqtt` crate, which is a parameter.
-/

namespace AimDb.Mqtt.Embedded

open AimDb.Framing
open AimDb.Json (Bytes)

inductive PacketReadError
  | packetTooLargeForBuffer
  | invalidPacketType
  | invalidVariableByteIntegerEncoding
  | other
  deriving DecidableEq

/-- What framing uses of `mountain-mqtt`. -/
structure MountainMqtt where
  /-- `PacketType::is_valid_first_header_byte` -/
  isValidFirstHeaderByte : UInt8 → Bool
  /-- `MqttBufReader::get_variable_u32` on these bytes. -/
  getVariableU32 : Bytes → Except PacketReadError ℕ

/-- The bytes `buf[..len]` of a buffer of `capacity` bytes. -/
structure PacketReader (capacity : ℕ) where
  buffered : Bytes
  fits : buffered.length ≤ capacity

namespace PacketReader

variable {capacity : ℕ}

def new (capacity : ℕ) : PacketReader capacity := ⟨[], Nat.zero_le _⟩

def feed (reader : PacketReader capacity) (bytes : Bytes) :
    Except PacketReadError (PacketReader capacity) :=
  if tooMuch : capacity < reader.buffered.length + bytes.length then .error .packetTooLargeForBuffer
  else .ok ⟨reader.buffered ++ bytes, by rw [List.length_append]; omega⟩

def consume (reader : PacketReader capacity) (total : ℕ) : PacketReader capacity :=
  ⟨reader.buffered.drop total, by
    rw [List.length_drop]
    exact Nat.le_trans (Nat.sub_le _ _) reader.fits⟩

end PacketReader

/-- Where the remaining-length field ends, if it has arrived: it continues while the
top bit is set, for four bytes at most. -/
def fieldEnd (buffered : Bytes) (pos : ℕ) : Except PacketReadError (Option ℕ) :=
  if 4 < pos then .error .invalidVariableByteIntegerEncoding
  else
    match buffered[pos]? with
    | none => .ok none
    | some byte => if byte &&& 128 = 0 then .ok (some (pos + 1)) else fieldEnd buffered (pos + 1)
termination_by 5 - pos

/-- Total length of the complete packet at the head of the buffered bytes. -/
def framedLen (mqtt : MountainMqtt) (capacity : ℕ) (buffered : Bytes) :
    Except PacketReadError (Option ℕ) :=
  match buffered with
  | [] => .ok none
  | first :: rest =>
      if mqtt.isValidFirstHeaderByte first then
        match fieldEnd (first :: rest) 1 with
        | .error error => .error error
        | .ok none => .ok none
        | .ok (some pos) =>
            match mqtt.getVariableU32 (((first :: rest).take pos).drop 1) with
            | .error error => .error error
            | .ok remaining =>
                let total := pos + remaining
                if capacity < total then .error .packetTooLargeForBuffer
                else if buffered.length < total then .ok none
                else .ok (some total)
      else .error .invalidPacketType

def PacketReader.framedLen {capacity : ℕ} (mqtt : MountainMqtt) (reader : PacketReader capacity) :
    Except PacketReadError (Option ℕ) :=
  Embedded.framedLen mqtt capacity reader.buffered

variable {mqtt : MountainMqtt} {capacity : ℕ}

/-- A length in groups of seven bits, least significant first. -/
inductive VariableByteInteger : Bytes → ℕ → Prop
  | last {byte} : byte &&& 128 = 0 → VariableByteInteger [byte] byte.toNat
  | more {byte rest value} : byte &&& 128 ≠ 0 → VariableByteInteger rest value →
      VariableByteInteger (byte :: rest) ((byte &&& 127).toNat + 128 * value)

/-- `get_variable_u32` as documented: it decodes a field of up to four bytes. -/
structure MountainMqtt.Documented (mqtt : MountainMqtt) : Prop where
  decodes : ∀ field value, VariableByteInteger field value → field.length ≤ 4 →
    mqtt.getVariableU32 field = .ok value

theorem VariableByteInteger.length_pos {field : Bytes} {value : ℕ}
    (encoded : VariableByteInteger field value) : 0 < field.length := by
  cases encoded with
  | last final => exact Nat.one_pos
  | more continues rest => exact Nat.succ_pos _

theorem VariableByteInteger.fieldEnd_eq {field front : Bytes} {value : ℕ}
    (encoded : VariableByteInteger field value) (short : front.length + field.length ≤ 5)
    (rest : Bytes) :
    fieldEnd (front ++ (field ++ rest)) front.length =
        .ok (some (front.length + field.length)) := by
  induction encoded generalizing front with
  | last final =>
      rw [fieldEnd, if_neg (by simp at short; omega)]
      simp [final]
  | @more byte field value continues encoded inductionHypothesis =>
      have later := @inductionHypothesis (front ++ [byte]) (by simp at short ⊢; omega)
      have positive := encoded.length_pos
      rw [fieldEnd, if_neg (by simp at short; omega)]
      simp only [List.append_assoc, List.length_append, List.length_singleton,
        List.singleton_append] at later
      simp [continues, later, Nat.add_assoc, Nat.add_comm 1]

theorem fieldEnd_bounds {buffered : Bytes} {pos behind : ℕ}
    (found : fieldEnd buffered pos = .ok (some behind)) :
    pos < behind ∧ behind ≤ buffered.length := by
  fun_induction fieldEnd buffered pos with
  | case1 pos tooLong => cases found
  | case2 pos inRange absent => cases found
  | case3 pos inRange byte present final =>
      cases found
      obtain ⟨inside, -⟩ := List.getElem?_eq_some_iff.mp present
      exact ⟨Nat.lt_succ_self _, inside⟩
  | case4 pos inRange byte present continues inductionHypothesis =>
      obtain ⟨later, inside⟩ := inductionHypothesis found
      exact ⟨Nat.lt_of_succ_lt later, inside⟩

theorem fieldEnd_append {buffered : Bytes} {pos : ℕ} (more : Bytes)
    (settled : fieldEnd buffered pos ≠ .ok none) :
    fieldEnd (buffered ++ more) pos = fieldEnd buffered pos := by
  fun_induction fieldEnd buffered pos with
  | case1 pos tooLong => rw [fieldEnd, if_pos tooLong]
  | case2 pos inRange absent => exact absurd rfl settled
  | case3 pos inRange byte present final =>
      obtain ⟨inside, -⟩ := List.getElem?_eq_some_iff.mp present
      rw [fieldEnd, if_neg inRange, List.getElem?_append_left inside, present]
      simp [final]
  | case4 pos inRange byte present continues inductionHypothesis =>
      obtain ⟨inside, -⟩ := List.getElem?_eq_some_iff.mp present
      rw [fieldEnd, if_neg inRange, List.getElem?_append_left inside, present]
      simp [continues, inductionHypothesis settled]

end AimDb.Mqtt.Embedded
