import Mathlib.Algebra.Order.Group.Nat
import Mathlib.Tactic.Common

/-!
# Numbered items in flight

Items carry increasing numbers from a counter to a cursor, and some are lost on
the way.  Between the two, the numbers in flight rise from above the cursor up
to the counter.
-/

namespace AimDb.Numbering

/-- The numbers in flight between a cursor `low` and a counter `high`. -/
structure Rising (low : ℕ) (inFlight : List ℕ) (high : ℕ) : Prop where
  sorted : (low :: inFlight).Pairwise (· < ·)
  bounded : ∀ number ∈ low :: inFlight, number ≤ high

namespace Rising

variable {low number high : ℕ} {inFlight rest : List ℕ}

theorem nil (bound : low ≤ high) : Rising low [] high :=
  ⟨List.pairwise_singleton _ _, by simpa using bound⟩

theorem raise (rising : Rising low inFlight high) {next : ℕ} (bound : high ≤ next) :
    Rising low inFlight next :=
  ⟨rising.sorted, fun number mem => (rising.bounded number mem).trans bound⟩

theorem push (rising : Rising low inFlight high) {next : ℕ} (above : high < next) :
    Rising low (inFlight ++ [next]) next := by
  constructor
  · rw [← List.cons_append, List.pairwise_append]
    refine ⟨rising.sorted, List.pairwise_singleton _ _, ?_⟩
    intro number mem last isNext
    obtain rfl := List.mem_singleton.mp isNext
    exact (rising.bounded number mem).trans_lt above
  · rw [← List.cons_append]
    intro number mem
    rcases List.mem_append.mp mem with old | isNext
    · exact ((rising.bounded number old).trans_lt above).le
    · exact (List.mem_singleton.mp isNext).le

theorem lt_head (rising : Rising low (number :: rest) high) : low < number :=
  (List.pairwise_cons.mp rising.sorted).1 number List.mem_cons_self

theorem pop (rising : Rising low (number :: rest) high) : Rising number rest high :=
  ⟨(List.pairwise_cons.mp rising.sorted).2,
    fun other mem => rising.bounded other (List.mem_cons_of_mem _ mem)⟩

theorem skip (rising : Rising low (number :: rest) high) : Rising low rest high := by
  constructor
  · exact rising.sorted.sublist (List.Sublist.cons_cons _ (List.sublist_cons_self _ _))
  · intro other mem
    apply rising.bounded other
    rcases List.mem_cons.mp mem with rfl | later
    · exact List.mem_cons_self
    · exact List.mem_cons_of_mem _ (List.mem_cons_of_mem _ later)

theorem eq_nil (rising : Rising low inFlight low) : inFlight = [] := by
  cases inFlight with
  | nil => rfl
  | cons number rest =>
      have above := rising.lt_head
      have within := rising.bounded number (List.mem_cons_of_mem _ List.mem_cons_self)
      omega

theorem sublist (rising : Rising low inFlight high) (fewer : rest.Sublist inFlight) :
    Rising low rest high :=
  ⟨rising.sorted.sublist (fewer.cons_cons low), fun other mem =>
    rising.bounded other ((fewer.cons_cons low).subset mem)⟩

/-- Numbers that rise from the counter go on behind those in flight. -/
theorem append (rising : Rising low inFlight high) {next : ℕ} (more : Rising high rest next) :
    Rising low (inFlight ++ rest) next := by
  have above := (List.pairwise_cons.mp more.sorted).1
  have reached := more.bounded high List.mem_cons_self
  constructor
  · rw [← List.cons_append, List.pairwise_append]
    refine ⟨rising.sorted, (List.pairwise_cons.mp more.sorted).2, ?_⟩
    intro earlier isEarlier later isLater
    exact (rising.bounded earlier isEarlier).trans_lt (above later isLater)
  · rw [← List.cons_append]
    intro other mem
    rcases List.mem_append.mp mem with early | late
    · exact (rising.bounded other early).trans reached
    · exact more.bounded other (List.mem_cons_of_mem _ late)

end Rising

end AimDb.Numbering
