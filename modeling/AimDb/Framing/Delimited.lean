import Mathlib.Data.List.Basic
import Mathlib.Tactic.Common

/-!
# Streams cut at a delimiter

`cut` splits a stream at its first delimiter; `splitInclusive` splits it after
every one, a last piece without delimiter being kept.
-/

namespace AimDb.Framing

variable {α : Type*} [DecidableEq α] {delimiter : α}

def cut (delimiter : α) : List α → Option (List α × List α)
  | [] => none
  | first :: rest =>
      if first = delimiter then some ([], rest)
      else (cut delimiter rest).map fun (before, after) => (first :: before, after)

theorem cut_eq_none_iff {stream : List α} :
    cut delimiter stream = none ↔ delimiter ∉ stream := by
  induction stream with
  | nil => simp [cut]
  | cons first rest inductionHypothesis =>
      by_cases found : first = delimiter
      · simp [cut, found]
      · simp [cut, found, inductionHypothesis, Ne.symm found]

theorem cut_eq_some_iff {stream before after : List α} :
    cut delimiter stream = some (before, after) ↔
      stream = before ++ delimiter :: after ∧ delimiter ∉ before := by
  induction stream generalizing before with
  | nil => simp [cut]
  | cons first rest inductionHypothesis =>
      by_cases found : first = delimiter
      · subst found
        cases before with
        | nil => simp [cut, eq_comm]
        | cons head tail =>
            simp only [cut, if_pos, Option.some.injEq, Prod.mk.injEq, List.nil_eq,
              reduceCtorEq, false_and, List.cons_append, List.cons.injEq, List.mem_cons,
              not_or, false_iff]
            rintro ⟨⟨same, -⟩, different, -⟩
            exact different same
      · simp only [cut, if_neg found, Option.map_eq_some_iff, Prod.exists, Prod.mk.injEq]
        constructor
        · rintro ⟨front, back, split, rfl, rfl⟩
          obtain ⟨rfl, free⟩ := inductionHypothesis.mp split
          exact ⟨rfl, by simp [free, Ne.symm found]⟩
        · rintro ⟨split, free⟩
          cases before with
          | nil => exact absurd (List.cons.inj split).1 found
          | cons head tail =>
              obtain ⟨rfl, rfl⟩ := List.cons.inj split
              refine ⟨tail, after, inductionHypothesis.mpr ⟨rfl, ?_⟩, rfl, rfl⟩
              exact fun inside => free (List.mem_cons_of_mem _ inside)

theorem cut_append {before : List α} (free : delimiter ∉ before) (after : List α) :
    cut delimiter (before ++ delimiter :: after) = some (before, after) :=
  cut_eq_some_iff.mpr ⟨rfl, free⟩

theorem length_of_cut {stream before after : List α}
    (split : cut delimiter stream = some (before, after)) : after.length < stream.length := by
  obtain ⟨rfl, -⟩ := cut_eq_some_iff.mp split
  simp
  omega

def splitInclusive (delimiter : α) (stream : List α) : List (List α) :=
  match _ : cut delimiter stream with
  | none => if stream = [] then [] else [stream]
  | some (before, after) => (before ++ [delimiter]) :: splitInclusive delimiter after
termination_by stream.length
decreasing_by exact length_of_cut ‹_›

@[simp] theorem splitInclusive_nil : splitInclusive delimiter ([] : List α) = [] := by
  rw [splitInclusive]
  rfl

theorem splitInclusive_cut {before : List α} (free : delimiter ∉ before) (after : List α) :
    splitInclusive delimiter (before ++ delimiter :: after) =
      (before ++ [delimiter]) :: splitInclusive delimiter after := by
  rw [splitInclusive]
  split
  · rename_i found
    rw [cut_append free] at found
    exact nomatch found
  · rename_i found
    rw [cut_append free] at found
    obtain ⟨rfl, rfl⟩ := Prod.mk.inj (Option.some.inj found)
    rfl

theorem splitInclusive_free {stream : List α} (free : delimiter ∉ stream)
    (nonempty : stream ≠ []) :
    splitInclusive delimiter stream = [stream] := by
  rw [splitInclusive]
  split
  · rw [if_neg nonempty]
  · rename_i found
    rw [cut_eq_none_iff.mpr free] at found
    exact nomatch found

theorem count_le_length_splitInclusive (stream : List α) :
    stream.count delimiter ≤ (splitInclusive delimiter stream).length := by
  fun_induction splitInclusive delimiter stream with
  | case1 split => simp
  | case2 stream split nonempty =>
      rw [List.count_eq_zero_of_not_mem (cut_eq_none_iff.mp split)]
      exact Nat.zero_le _
  | case3 stream before after split inductionHypothesis =>
      obtain ⟨rfl, free⟩ := cut_eq_some_iff.mp split
      rw [List.count_append, List.count_eq_zero_of_not_mem free, List.count_cons_self]
      simpa using inductionHypothesis

end AimDb.Framing
