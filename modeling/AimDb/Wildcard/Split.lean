import Mathlib.Data.List.Basic
import Mathlib.Data.List.TakeWhile
import Mathlib.Tactic.Common

/-!
# Splitting a list at a separator

What the pieces of `List.splitOn` contain, and when the pieces of one list are
the first pieces of another.
-/

namespace AimDb.Wildcard

universe u

variable {α : Type u} [DecidableEq α] {x : α}

theorem splitOn_injective : Function.Injective (List.splitOn x) := by
  intro xs ys same
  simpa using congrArg [x].intercalate same

theorem mem_of_mem_piece {xs piece : List α} {a : α} (isPiece : piece ∈ xs.splitOn x)
    (inPiece : a ∈ piece) : a ∈ xs ∧ a ≠ x := by
  induction xs generalizing piece with
  | nil =>
    obtain rfl : piece = [] := by simpa using isPiece
    simp at inPiece
  | cons y ys ih =>
    rw [List.splitOn_cons_eq_if_modifyHead] at isPiece
    split at isPiece
    · rcases List.mem_cons.mp isPiece with rfl | later
      · simp at inPiece
      · exact ⟨by simp [(ih later inPiece).1], (ih later inPiece).2⟩
    · rename_i notSeparator
      cases pieces : ys.splitOn x with
      | nil => exact absurd pieces (List.splitOn_ne_nil x ys)
      | cons head tail =>
        rw [pieces, List.modifyHead_cons] at isPiece
        rcases List.mem_cons.mp isPiece with rfl | later
        · rcases List.mem_cons.mp inPiece with rfl | inHead
          · exact ⟨by simp, by simpa using notSeparator⟩
          · have inTail : head ∈ ys.splitOn x := by simp [pieces]
            exact ⟨by simp [(ih inTail inHead).1], (ih inTail inHead).2⟩
        · have inTail : piece ∈ ys.splitOn x := by simp [pieces, later]
          exact ⟨by simp [(ih inTail inPiece).1], (ih inTail inPiece).2⟩

/-- The first piece ends at the first separator, and the others follow it. -/
theorem splitOn_eq_takeWhile_cons (x : α) (xs : List α) :
    xs.splitOn x = xs.takeWhile (· != x) ::
      match xs.dropWhile (· != x) with
      | [] => []
      | _ :: rest => rest.splitOn x := by
  have whole := List.takeWhile_append_dropWhile (p := (· != x)) (l := xs)
  have before : x ∉ xs.takeWhile (· != x) := by
    intro inside
    simpa using List.mem_takeWhile_imp inside
  cases after : xs.dropWhile (· != x) with
  | nil =>
      rw [after, List.append_nil] at whole
      rw [whole] at before ⊢
      exact List.splitOn_eq_singleton before
  | cons y rest =>
      have separator : y = x := by
        have head := List.head_dropWhile_not (· != x) (l := xs) (by simp [after])
        simpa [after] using head
      rw [after, separator] at whole
      conv_lhs => rw [← whole]
      exact List.splitOn_append_cons_self_of_not_mem before rest

/-- The pieces of `stem` come first exactly when the list is `stem` itself or
goes on behind it with a separator. -/
theorem splitOn_prefix_iff {stem xs : List α} :
    stem.splitOn x <+: xs.splitOn x ↔ xs = stem ∨ ∃ rest, xs = stem ++ x :: rest := by
  constructor
  · rintro ⟨more, pieces⟩
    by_cases none : more = []
    · subst none
      exact .inl (splitOn_injective (by rw [← pieces, List.append_nil]))
    · refine .inr ⟨[x].intercalate more, splitOn_injective (x := x) ?_⟩
      rw [List.splitOn_append_cons_self, List.splitOn_intercalate x ?_ none, pieces]
      intro piece isPiece separator
      have inWhole : piece ∈ xs.splitOn x := by simp [← pieces, isPiece]
      exact (mem_of_mem_piece inWhole separator).2 rfl
  · rintro (rfl | ⟨rest, rfl⟩)
    · exact List.prefix_refl _
    · rw [List.splitOn_append_cons_self]
      exact List.prefix_append _ _

end AimDb.Wildcard
