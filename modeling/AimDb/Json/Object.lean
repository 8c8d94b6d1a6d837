import AimDb.Json.Text
import Mathlib.Algebra.GroupWithZero.Nat

/-!
# Compact objects

A compact object of values is a value, and its bytes are the bytes of its members
and the punctuation between them.
-/

namespace AimDb.Json

variable {members : List (String × Bytes)}

theorem mem_objectText_iff {b : UInt8} {members : List (String × Bytes)}
    (other : b ∉ [quote, comma, colon, openBrace, closeBrace]) :
    b ∈ objectText members ↔ ∃ m ∈ members, b ∈ utf8 m.1 ∨ b ∈ m.2 := by
  simp only [List.mem_cons, List.not_mem_nil, or_false, not_or] at other
  have inMember (m : String × Bytes) : b ∈ memberText m ↔ b ∈ utf8 m.1 ∨ b ∈ m.2 := by
    simp [memberText, other]
  have inside : b ∈ [comma].intercalate (members.map memberText) ↔
      ∃ m ∈ members, b ∈ utf8 m.1 ∨ b ∈ m.2 := by
    induction members with
    | nil => simp
    | cons m members inductionHypothesis =>
        cases members with
        | nil => simp [inMember]
        | cons next members =>
            rw [List.map_cons, List.map_cons, List.intercalate_cons_cons, List.mem_append,
              List.mem_append, ← List.map_cons, inductionHypothesis, inMember]
            simp [other, or_assoc]
  simp [objectText, other, inside]

theorem length_memberText (m : String × Bytes) :
    (memberText m).length = (utf8 m.1).length + m.2.length + 3 := by
  simp [memberText]
  omega

theorem length_objectText {first : String × Bytes} {rest : List (String × Bytes)} :
    (objectText (first :: rest)).length =
      2 + ((first :: rest).map fun m => (memberText m).length).sum + rest.length := by
  have inside : ([comma].intercalate ((first :: rest).map memberText)).length =
      ((first :: rest).map fun m => (memberText m).length).sum + rest.length := by
    induction rest generalizing first with
    | nil => simp
    | cons next rest inductionHypothesis =>
        rw [List.map_cons, List.map_cons, List.intercalate_cons_cons, ← List.map_cons,
          List.length_append, List.length_append, inductionHypothesis]
        simp only [List.map_cons, List.sum_cons, List.length_cons, List.length_nil]
        omega
  rw [objectText, List.length_append, List.length_cons, inside]
  simp
  omega

theorem isStringBody_plain {bytes : Bytes} (plain : ∀ b ∈ bytes, IsPlainByte b) :
    IsStringBody bytes := by
  induction bytes with
  | nil => exact .nil
  | cons b bytes inductionHypothesis =>
      rw [List.forall_mem_cons] at plain
      exact .plain plain.1 (inductionHypothesis plain.2)

theorem isBlank_nil : IsBlank [] := fun _ mem => absurd mem List.not_mem_nil

theorem objectText_value (wellFormed : ∀ m ∈ members, IsPlain m.1 ∧ IsValue m.2) :
    IsValue (objectText members) := by
  cases members with
  | nil => exact .emptyObject isBlank_nil
  | cons first rest =>
      refine .object ?_
      induction rest generalizing first with
      | nil =>
          obtain ⟨plain, value⟩ := wellFormed first List.mem_cons_self
          have member := Derives.lastMember isBlank_nil (isStringBody_plain plain) isBlank_nil
            isBlank_nil value isBlank_nil
          simpa [memberText] using member
      | cons next rest inductionHypothesis =>
          obtain ⟨plain, value⟩ := wellFormed first List.mem_cons_self
          have others := inductionHypothesis next fun m mem =>
            wellFormed m (List.mem_cons_of_mem _ mem)
          have member := Derives.member isBlank_nil (isStringBody_plain plain) isBlank_nil
            isBlank_nil value isBlank_nil others
          simpa [memberText] using member

theorem null_value : IsValue (utf8 "null") := .literal (by simp)

end AimDb.Json
