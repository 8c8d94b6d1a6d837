/-!
# Fallible steps

What a sequence of fallible steps did when it succeeded.
-/

namespace AimDb

/-- A sequence of fallible steps succeeded step by step. -/
theorem bind_eq_ok {ε α β : Type} {first : Except ε α} {next : α → Except ε β} {b : β}
    (ok : (first >>= next) = .ok b) : ∃ a, first = .ok a ∧ next a = .ok b := by
  cases first with
  | error e => cases ok
  | ok a => exact ⟨a, rfl, ok⟩

theorem map_eq_ok {ε α β : Type} {first : Except ε α} {f : α → β} {b : β}
    (ok : first.map f = .ok b) : ∃ a, first = .ok a ∧ f a = b := by
  cases first with
  | error e => cases ok
  | ok a => exact ⟨a, rfl, Except.ok.inj ok⟩

/-- A fallible step gives a good value, or fails for a reason. -/
inductive Yields {ε α : Type} (good : α → Prop) (bad : Prop) : Except ε α → Prop
  | ok {a : α} (isGood : good a) : Yields good bad (.ok a)
  | error {e : ε} (isBad : bad) : Yields good bad (.error e)

theorem Yields.imp {ε α : Type} {good good' : α → Prop} {bad bad' : Prop}
    {result : Except ε α}
    (yields : Yields good bad result) (values : ∀ a, good a → good' a) (reason : bad → bad') :
    Yields good' bad' result := by
  cases yields with
  | ok isGood => exact .ok (values _ isGood)
  | error isBad => exact .error (reason isBad)

/-- The next step takes a good value, and a reason to fail stays one. -/
theorem Yields.bind {ε α β : Type} {good : α → Prop} {bad : Prop} {good' : β → Prop}
    {bad' : Prop}
    {first : Except ε α} {next : α → Except ε β} (yields : Yields good bad first)
    (further : ∀ a, good a → Yields good' bad' (next a)) (reason : bad → bad') :
    Yields good' bad' (first >>= next) := by
  cases yields with
  | ok isGood => exact further _ isGood
  | error isBad => exact .error (reason isBad)

end AimDb
