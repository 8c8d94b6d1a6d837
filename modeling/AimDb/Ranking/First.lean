import Mathlib.Data.List.Pairwise
import Mathlib.Data.List.Perm.Basic
import Mathlib.Tactic.Common

/-!
# The first entries of a ranking

Keeping the entries that few others come before is taking the first ones of the
sorted list.
-/

namespace AimDb.Ranking

universe u

variable {α : Type u} {before : α → α → Bool}

/-- `before` says that one entry comes strictly before another one. -/
structure Order (before : α → α → Bool) : Prop where
  asymm : ∀ a b, before a b = true → before b a = false
  cotrans : ∀ a b c, before b a = false → before c b = false → before c a = false

/-- Of two entries one comes first. -/
def Apart (before : α → α → Bool) (a b : α) : Prop := before a b = true ∨ before b a = true

def ranked (before : α → α → Bool) (entries : List α) : List α :=
  entries.mergeSort fun a b => !before b a

theorem ranked_perm (entries : List α) : (ranked before entries).Perm entries :=
  List.mergeSort_perm _ _

theorem Order.irrefl (order : Order before) (a : α) : before a a = false := by
  rw [Bool.eq_false_iff]
  intro self
  rw [order.asymm a a self] at self
  cases self

theorem Order.pairwise_ranked (order : Order before) {entries : List α}
    (apart : entries.Pairwise (Apart before)) :
    (ranked before entries).Pairwise fun a b => before a b = true ∧ before b a = false := by
  have sorted : (ranked before entries).Pairwise fun a b => (!before b a) = true := by
    apply List.pairwise_mergeSort
    · intro a b c first second
      simp only [Bool.not_eq_true'] at first second ⊢
      exact order.cotrans a b c first second
    · intro a b
      cases later : before a b with
      | false => simp
      | true => simp [order.asymm a b later]
  have apartRanked : (ranked before entries).Pairwise (Apart before) :=
    (ranked_perm entries).symm.pairwise apart Or.symm
  apply (sorted.and apartRanked).imp
  rintro a b ⟨notBehind, first | behind⟩
  · exact ⟨first, by simpa using notBehind⟩
  · rw [behind] at notBehind
    cases notBehind

theorem filter_rank_of_sorted {entries : List α} (irrefl : ∀ a, before a a = false)
    (sorted : entries.Pairwise fun a b => before a b = true ∧ before b a = false) (limit : Nat) :
    entries.filter (fun a => decide (entries.countP (fun b => before b a) < limit)) =
      entries.take limit := by
  induction entries generalizing limit with
  | nil => simp
  | cons first entries inductionHypothesis =>
      obtain ⟨head, tail⟩ := List.pairwise_cons.mp sorted
      have none : entries.countP (fun b => before b first) = 0 := by
        rw [List.countP_eq_zero]
        intro b later
        simp [(head b later).2]
      have one : ∀ a ∈ entries, (first :: entries).countP (fun b => before b a) =
          entries.countP (fun b => before b a) + 1 := by
        intro a later
        exact List.countP_cons_of_pos (head a later).1
      have firstRank : (first :: entries).countP (fun b => before b first) = 0 := by
        rw [← none]
        exact List.countP_cons_of_neg (by simp [irrefl])
      cases limit with
      | zero => simp
      | succ limit =>
          rw [List.filter_cons_of_pos (by simp [firstRank]), List.take_succ_cons,
            ← inductionHypothesis tail limit]
          congr 1
          apply List.filter_congr
          intro a later
          rw [one a later]
          simp

theorem Order.filter_rank_perm (order : Order before) {entries : List α}
    (apart : entries.Pairwise (Apart before)) (limit : Nat) :
    (entries.filter fun a => decide (entries.countP (fun b => before b a) < limit)).Perm
      ((ranked before entries).take limit) := by
  have perm : (ranked before entries).Perm entries := ranked_perm entries
  rw [← filter_rank_of_sorted order.irrefl (order.pairwise_ranked apart) limit]
  have counts : ∀ a, entries.countP (fun b => before b a) =
      (ranked before entries).countP (fun b => before b a) :=
    fun a => (perm.countP_eq _).symm
  simp only [counts]
  exact perm.symm.filter _

end AimDb.Ranking
