import Mathlib.Data.List.Basic
import Mathlib.Tactic.Common

/-!
# Precedence in a log

One kind of event comes before every event of another kind.
-/

namespace AimDb.Transition

variable {Event : Type*}

def Precedes (early late : Event → Prop) (log : List Event) : Prop :=
  ∀ before event after, log = before ++ event :: after → late event →
    ∃ first ∈ before, early first

variable {early late : Event → Prop} {log more : List Event}

theorem Precedes.of_none (none : ∀ event ∈ log, ¬ late event) : Precedes early late log := by
  rintro before event after rfl isLate
  exact absurd isLate (none event (List.mem_append_right _ List.mem_cons_self))

theorem Precedes.append (so : Precedes early late log) (first : ∃ event ∈ log, early event) :
    Precedes early late (log ++ more) := by
  intro before event after split isLate
  rcases List.append_eq_append_iff.mp split with ⟨front, rfl, -⟩ | ⟨tail, rfl, rest⟩
  · obtain ⟨found, inside, isEarly⟩ := first
    exact ⟨found, List.mem_append_left _ inside, isEarly⟩
  · cases tail with
    | nil =>
        obtain ⟨found, inside, isEarly⟩ := first
        rw [List.append_nil] at inside
        exact ⟨found, inside, isEarly⟩
    | cons head tail =>
        rw [List.cons_append, List.cons.injEq] at rest
        obtain ⟨rfl, rfl⟩ := rest
        exact so before event tail rfl isLate

theorem Precedes.of_append (so : Precedes early late (log ++ more)) : Precedes early late log := by
  rintro before event after rfl isLate
  exact so before event (after ++ more) (by rw [List.append_assoc, List.cons_append]) isLate

theorem Precedes.not_late_of_first {last : Event} (so : Precedes early late (log ++ [last]))
    (none : ∀ event ∈ log, ¬ early event) : ¬ late last := by
  intro isLate
  obtain ⟨first, inside, isEarly⟩ := so log last [] rfl isLate
  exact none first inside isEarly

end AimDb.Transition
