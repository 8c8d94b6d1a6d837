import AimDb.Framing.Delimited

/-!
# Cutting a text at a separator

At the last occurrence of an element, or at the first one of a list.
-/

namespace AimDb.Strings

open Framing (cut)

variable {α : Type} [DecidableEq α] {x : α} {front back s : List α}

/-- The parts before and behind the last `x`. -/
def rcut (x : α) (s : List α) : Option (List α × List α) :=
  (cut x s.reverse).map fun (back, front) => (front.reverse, back.reverse)

/-- The parts before and behind the first occurrence of `sep`. -/
def splitOnce (sep : List α) : List α → Option (List α × List α)
  | [] => if sep = [] then some ([], []) else none
  | y :: s =>
      if sep.isPrefixOf (y :: s) then some ([], (y :: s).drop sep.length)
      else (splitOnce sep s).map fun (front, back) => (y :: front, back)

theorem splitOnce_nil (sep : List α) :
    splitOnce sep [] = if sep = [] then some ([], []) else none :=
  rfl

theorem splitOnce_cons (sep : List α) (y : α) (s : List α) :
    splitOnce sep (y :: s) =
      if sep.isPrefixOf (y :: s) then some ([], (y :: s).drop sep.length)
      else (splitOnce sep s).map fun (front, back) => (y :: front, back) :=
  rfl

theorem cut_append_of_cut (tail : List α) (found : cut x s = some (front, back)) :
    cut x (s ++ tail) = some (front, back ++ tail) := by
  obtain ⟨rfl, free⟩ := Framing.cut_eq_some_iff.mp found
  rw [List.append_assoc]
  exact Framing.cut_append free _

theorem cut_isSome (mem : x ∈ s) : ∃ front back, cut x s = some (front, back) := by
  cases found : cut x s with
  | none => exact absurd mem (Framing.cut_eq_none_iff.mp found)
  | some parts => exact ⟨parts.1, parts.2, rfl⟩

theorem rcut_append (front : List α) (free : x ∉ back) :
    rcut x (front ++ x :: back) = some (front, back) := by
  have reversed : (front ++ x :: back).reverse = back.reverse ++ x :: front.reverse := by simp
  rw [rcut, reversed, Framing.cut_append (by simpa using free)]
  simp

theorem rcut_eq_none_iff : rcut x s = none ↔ x ∉ s := by
  rw [rcut, Option.map_eq_none_iff, Framing.cut_eq_none_iff, List.mem_reverse]

theorem eq_append_of_rcut (found : rcut x s = some (front, back)) :
    s = front ++ x :: back ∧ x ∉ back := by
  obtain ⟨⟨behind, before⟩, inner, parts⟩ := Option.map_eq_some_iff.mp found
  obtain ⟨rfl, rfl⟩ := Prod.mk.inj parts
  obtain ⟨reversed, free⟩ := Framing.cut_eq_some_iff.mp inner
  refine ⟨?_, by simpa using free⟩
  rw [← List.reverse_reverse s, reversed]
  simp

theorem rcut_append_of_rcut (lead : List α) (found : rcut x s = some (front, back)) :
    rcut x (lead ++ s) = some (lead ++ front, back) := by
  obtain ⟨rfl, free⟩ := eq_append_of_rcut found
  rw [← List.append_assoc]
  exact rcut_append _ free

theorem rcut_isSome (mem : x ∈ s) : ∃ front back, rcut x s = some (front, back) := by
  cases found : rcut x s with
  | none => exact absurd mem (rcut_eq_none_iff.mp found)
  | some parts => exact ⟨parts.1, parts.2, rfl⟩

/-- A separator whose first element does not come again overlaps no other. -/
theorem splitOnce_append {sep : List α} (single : x ∉ sep) (free : ¬ x :: sep <:+: front)
    (back : List α) : splitOnce (x :: sep) (front ++ x :: sep ++ back) = some (front, back) := by
  induction front with
  | nil =>
      have isPrefix : (x :: sep).isPrefixOf (x :: sep ++ back) = true :=
        List.isPrefixOf_iff_prefix.mpr (List.prefix_append _ _)
      rw [List.nil_append, List.cons_append, splitOnce_cons, ← List.cons_append, if_pos isPrefix,
        List.drop_left]
  | cons y front inductionHypothesis =>
      have notPrefix : ¬ (x :: sep).isPrefixOf (y :: (front ++ x :: sep ++ back)) = true := by
        intro isPrefix
        obtain ⟨rest, same⟩ := List.isPrefixOf_iff_prefix.mp isPrefix
        have aligned : x :: sep ++ rest = y :: front ++ (x :: sep ++ back) := by simpa using same
        rcases List.append_eq_append_iff.mp aligned with
          ⟨inner, ends, -⟩ | ⟨overlap, ends, behind⟩
        · exact free ⟨[], inner, by rw [ends]; simp⟩
        · cases overlap with
          | nil => exact free ⟨[], [], by rw [ends]; simp⟩
          | cons z overlap =>
              -- the overlap starts with the separator's first element
              have first : x = z := (List.cons.inj behind).1
              have inside : z ∈ sep := by
                rw [(List.cons.inj ends).2]
                exact List.mem_append_right _ List.mem_cons_self
              exact single (first ▸ inside)
      have shorter : ¬ x :: sep <:+: front := fun inside =>
        free (inside.trans (List.suffix_cons y front).isInfix)
      rw [List.cons_append, List.cons_append, splitOnce_cons, if_neg notPrefix,
        inductionHypothesis shorter]
      rfl

theorem splitOnce_eq_none_iff {sep : List α} : splitOnce sep s = none ↔ ¬ sep <:+: s := by
  induction s with
  | nil => simp [splitOnce_nil]
  | cons y s inductionHypothesis =>
      rw [splitOnce_cons, List.infix_cons_iff, ← List.isPrefixOf_iff_prefix]
      by_cases isPrefix : sep.isPrefixOf (y :: s) = true
      · simp [isPrefix]
      · simp [isPrefix, inductionHypothesis]

theorem eq_append_of_splitOnce {sep : List α} (found : splitOnce sep s = some (front, back)) :
    s = front ++ sep ++ back := by
  induction s generalizing front with
  | nil =>
      rw [splitOnce_nil] at found
      split at found
      next empty =>
        obtain ⟨rfl, rfl⟩ := Prod.mk.inj (Option.some.inj found)
        rw [empty]
        rfl
      · cases found
  | cons y s inductionHypothesis =>
      rw [splitOnce_cons] at found
      split at found
      next isPrefix =>
        obtain ⟨rfl, rfl⟩ := Prod.mk.inj (Option.some.inj found)
        obtain ⟨rest, same⟩ := List.isPrefixOf_iff_prefix.mp isPrefix
        rw [← same, List.drop_left, List.nil_append]
      · obtain ⟨⟨before, behind⟩, inner, parts⟩ := Option.map_eq_some_iff.mp found
        obtain ⟨rfl, rfl⟩ := Prod.mk.inj parts
        rw [inductionHypothesis inner]
        rfl

theorem not_infix_of_splitOnce {sep : List α} (nonempty : sep ≠ [])
    (found : splitOnce sep s = some (front, back)) : ¬ sep <:+: front := by
  induction s generalizing front with
  | nil =>
      rw [splitOnce_nil, if_neg nonempty] at found
      cases found
  | cons y s inductionHypothesis =>
      have whole := eq_append_of_splitOnce found
      rw [splitOnce_cons] at found
      split at found
      · obtain ⟨rfl, -⟩ := Prod.mk.inj (Option.some.inj found)
        simpa using nonempty
      next notPrefix =>
        obtain ⟨⟨before, behind⟩, inner, parts⟩ := Option.map_eq_some_iff.mp found
        obtain ⟨rfl, rfl⟩ := Prod.mk.inj parts
        rw [List.infix_cons_iff, not_or]
        refine ⟨fun leading => notPrefix ?_, inductionHypothesis inner⟩
        rw [List.isPrefixOf_iff_prefix, whole, List.append_assoc]
        exact leading.trans (List.prefix_append _ _)

end AimDb.Strings
