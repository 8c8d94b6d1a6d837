import AimDb.Json.Text

/-!
# Consistent overhead byte stuffing

The stuffing itself is a parameter with the laws framing relies on.  `reference`
is the usual encoding: each group is its length plus one, then that many bytes
without a zero; a group shorter than 254 bytes stands for a zero after it,
except at the end.
-/

namespace AimDb.Framing

open AimDb.Json (Bytes)

structure Cobs where
  encode : Bytes → Bytes
  decode : Bytes → Option Bytes
  decode_encode : ∀ payload, decode (encode payload) = some payload
  encode_ne_nil : ∀ payload, encode payload ≠ []
  encode_free : ∀ payload, 0 ∉ encode payload

namespace Cobs

def group (run : Bytes) : Bytes := (run.length + 1).toUInt8 :: run

/-- Encode what follows, `run` being the bytes of the group still open. -/
def encodeFrom (run : Bytes) : Bytes → Bytes
  | [] => group run
  | b :: bytes =>
      if b = 0 then group run ++ encodeFrom [] bytes
      else if run.length = 253 then group (run ++ [b]) ++ encodeFrom [] bytes
      else encodeFrom (run ++ [b]) bytes

def decodeGroups : Bytes → Option Bytes
  | [] => some []
  | code :: bytes =>
      if code = 0 ∨ bytes.length < code.toNat - 1 then none
      else
        let rest := bytes.drop (code.toNat - 1)
        let stuffed : Bytes := if code = 255 ∨ rest = [] then [] else [0]
        (decodeGroups rest).map fun tail => bytes.take (code.toNat - 1) ++ stuffed ++ tail
termination_by bytes => bytes.length
decreasing_by simp

theorem toNat_code {run : Bytes} (short : run.length ≤ 254) :
    (run.length + 1).toUInt8.toNat = run.length + 1 := by
  simp [Nat.toUInt8, UInt8.toNat_ofNat']
  omega

theorem encodeFrom_ne_nil (run payload : Bytes) : encodeFrom run payload ≠ [] := by
  induction payload generalizing run with
  | nil => simp [encodeFrom, group]
  | cons b bytes inductionHypothesis =>
      rw [encodeFrom]
      split_ifs
      · simp [group]
      · simp [group]
      · exact inductionHypothesis _

theorem group_free {run : Bytes} (short : run.length ≤ 254) (free : 0 ∉ run) :
    0 ∉ group run := by
  have code : (0 : UInt8) ≠ (run.length + 1).toUInt8 := by
    intro zero
    have := toNat_code short
    rw [← zero] at this
    exact absurd this (by simp)
  simp only [group, List.mem_cons, not_or]
  exact ⟨code, free⟩

theorem encodeFrom_free {run : Bytes} (short : run.length ≤ 253) (free : 0 ∉ run)
    (payload : Bytes) : 0 ∉ encodeFrom run payload := by
  induction payload generalizing run with
  | nil => exact group_free (by omega) free
  | cons b bytes inductionHypothesis =>
      have next : 0 ∉ encodeFrom [] bytes := inductionHypothesis (by simp) (by simp)
      rw [encodeFrom]
      split_ifs with zero full
      · simp only [List.mem_append, not_or]
        exact ⟨group_free (by omega) free, next⟩
      · have longer : 0 ∉ run ++ [b] := by simp [free, Ne.symm zero]
        simp only [List.mem_append, not_or]
        exact ⟨group_free (by simp; omega) longer, next⟩
      · exact inductionHypothesis (by simp; omega) (by simp [free, Ne.symm zero])

/-- A group is read back whole; what follows decides about the zero after it. -/
theorem decodeGroups_group {run : Bytes} (short : run.length ≤ 254) (rest : Bytes) :
    decodeGroups (group run ++ rest) =
      (decodeGroups rest).map fun tail =>
        run ++ (if run.length = 254 ∨ rest = [] then [] else [0]) ++ tail := by
  have nonzero : (run.length + 1).toUInt8 ≠ 0 := by
    intro zero
    have := toNat_code short
    rw [zero] at this
    exact absurd this (by simp)
  have full : (run.length + 1).toUInt8 = 255 ↔ run.length = 254 := by
    rw [← UInt8.toNat_inj, toNat_code short]
    simp
  have fits : ¬ ((run.length + 1).toUInt8 = 0 ∨ (run ++ rest).length < run.length) := by
    rintro (zero | few)
    · exact nonzero zero
    · simp at few
  rw [group, List.cons_append, decodeGroups, toNat_code short, Nat.add_sub_cancel, if_neg fits]
  simp only [List.drop_left, List.take_left, full]

theorem decodeGroups_encodeFrom {run : Bytes} (short : run.length ≤ 253) (payload : Bytes) :
    decodeGroups (encodeFrom run payload) = some (run ++ payload) := by
  induction payload generalizing run with
  | nil =>
      have read := decodeGroups_group (by omega : run.length ≤ 254) []
      rw [encodeFrom, ← List.append_nil (group run), read]
      simp [decodeGroups]
  | cons b bytes inductionHypothesis =>
      have next : decodeGroups (encodeFrom [] bytes) = some ([] ++ bytes) :=
        inductionHypothesis (by simp)
      rw [encodeFrom]
      split_ifs with zero full
      · rw [decodeGroups_group (by omega), next]
        simp [encodeFrom_ne_nil, zero, show run.length ≠ 254 by omega]
      · have length : (run ++ [b]).length = 254 := by simp [full]
        rw [decodeGroups_group (by omega), next]
        simp [length]
      · rw [inductionHypothesis (by simp; omega)]
        simp

def reference : Cobs where
  encode := encodeFrom []
  decode := decodeGroups
  decode_encode payload := decodeGroups_encodeFrom (by simp) payload
  encode_ne_nil := encodeFrom_ne_nil []
  encode_free := encodeFrom_free (by simp) (by simp)

end Cobs

end AimDb.Framing
