import Mathlib.Data.Fintype.Card
import Mathlib.Data.Fintype.EquivFin
import Mathlib.Order.WellFounded
import Mathlib.Data.List.Basic
import Mathlib.Tactic.Common

/-!
# Dropping the entries another one stands for

In a list whose entries may stand for each other, an entry is beaten by one
that stands for it, and of two entries that stand for each other by the first
one.  Every entry is beaten by an unbeaten one or unbeaten itself, although
entries are only ever compared in pairs.
-/

namespace AimDb.Wildcard

universe u

variable {α : Type u}

/-- The entry at `j` makes the one at `i` redundant. -/
def Beats (covers : α → α → Prop) (entries : List α) (j i : Fin entries.length) : Prop :=
  j ≠ i ∧ covers entries[j] entries[i] ∧ (j < i ∨ ¬ covers entries[i] entries[j])

/-- No entry makes the one at `i` redundant. -/
def Unbeaten (covers : α → α → Prop) (entries : List α) (i : Fin entries.length) : Prop :=
  ∀ j, ¬ Beats covers entries j i

def TransitiveOn (covers : α → α → Prop) (entries : List α) : Prop :=
  ∀ a ∈ entries, ∀ b ∈ entries, ∀ c ∈ entries, covers a b → covers b c → covers a c

variable {covers : α → α → Prop} {entries : List α}

theorem TransitiveOn.at (transitive : TransitiveOn covers entries) {i j k : Fin entries.length}
    (first : covers entries[i] entries[j]) (second : covers entries[j] entries[k]) :
    covers entries[i] entries[k] := by
  apply transitive entries[i] _ entries[j] _ entries[k] _ first second
  all_goals apply List.getElem_mem

theorem Beats.trans (transitive : TransitiveOn covers entries) {i j k : Fin entries.length}
    (first : Beats covers entries k j) (second : Beats covers entries j i) :
    Beats covers entries k i := by
  obtain ⟨distinctKJ, coversKJ, tieKJ⟩ := first
  obtain ⟨distinctJI, coversJI, tieJI⟩ := second
  have coversKI : covers entries[k] entries[i] := transitive.at coversKJ coversJI
  by_cases back : covers entries[i] entries[k]
  · -- all three stand for each other, so the positions decide
    have coversIJ : covers entries[i] entries[j] := transitive.at back coversKJ
    have coversJK : covers entries[j] entries[k] := transitive.at coversJI back
    have before : k < j := tieKJ.resolve_right fun not => not coversJK
    have behind : j < i := tieJI.resolve_right fun not => not coversIJ
    exact ⟨(before.trans behind).ne, coversKI, .inl (before.trans behind)⟩
  · refine ⟨?_, coversKI, .inr back⟩
    rintro rfl
    exact back coversKI

theorem beats_wellFounded (transitive : TransitiveOn covers entries) :
    WellFounded (Beats covers entries) := by
  have : IsTrans _ (Beats covers entries) := ⟨fun _ _ _ => Beats.trans transitive⟩
  have : Std.Irrefl (Beats covers entries) := ⟨fun _ beaten => beaten.1 rfl⟩
  exact Finite.wellFounded_of_trans_of_irrefl _

theorem exists_unbeaten (transitive : TransitiveOn covers entries) (i : Fin entries.length) :
    ∃ j, Unbeaten covers entries j ∧ (j = i ∨ covers entries[j] entries[i]) := by
  induction i using (beats_wellFounded transitive).induction with
  | _ i inductionHypothesis =>
      by_cases unbeaten : Unbeaten covers entries i
      · exact ⟨i, unbeaten, .inl rfl⟩
      · obtain ⟨j, beats⟩ := not_forall_not.mp unbeaten
        obtain ⟨k, stays, rfl | coversKJ⟩ := inductionHypothesis j beats
        · exact ⟨k, stays, .inr beats.2.1⟩
        · exact ⟨k, stays, .inr (transitive.at coversKJ beats.2.1)⟩

theorem Unbeaten.not_covers {i j : Fin entries.length} (staysI : Unbeaten covers entries i)
    (staysJ : Unbeaten covers entries j) (distinct : i ≠ j) :
    ¬ covers entries[i] entries[j] := by
  intro coversIJ
  have back : covers entries[j] entries[i] := by
    by_contra not
    exact staysJ i ⟨distinct, coversIJ, .inr not⟩
  rcases lt_or_gt_of_ne distinct with before | behind
  · exact staysJ i ⟨distinct, coversIJ, .inl before⟩
  · exact staysI j ⟨distinct.symm, back, .inl behind⟩

end AimDb.Wildcard
