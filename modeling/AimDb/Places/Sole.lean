import Mathlib.Logic.Equiv.Basic

/-!
# Tokens in one place each

Places hold at most one token, and every token is in exactly one place.  Exchanging what two
places hold keeps that.
-/

namespace AimDb.Places

variable {Place Token : Type*} {held after : Place → Option Token} {here there : Place}
  {token : Token}

def Sole (held : Place → Option Token) : Prop := ∀ token, ∃! place, held place = some token

theorem Sole.unique (sole : Sole held) (first : held here = some token)
    (second : held there = some token) : here = there :=
  (sole token).unique first second

theorem Sole.comp (sole : Sole held) (places : Place ≃ Place) : Sole (held ∘ places) := by
  intro token
  obtain ⟨place, isHeld, unique⟩ := sole token
  refine ⟨places.symm place, by simpa using isHeld, fun other isOther => ?_⟩
  exact (places.eq_symm_apply).mpr (unique (places other) isOther)

theorem Sole.exchange (sole : Sole held) (here there : Place) (gave : after here = held there)
    (took : after there = held here)
    (rest : ∀ place, place ≠ here → place ≠ there → after place = held place) :
    Sole after := by
  classical
  have same : after = held ∘ Equiv.swap here there := by
    funext place
    by_cases isHere : place = here
    · rw [isHere, Function.comp_apply, Equiv.swap_apply_left, gave]
    · by_cases isThere : place = there
      · rw [isThere, Function.comp_apply, Equiv.swap_apply_right, took]
      · rw [Function.comp_apply, Equiv.swap_apply_of_ne_of_ne isHere isThere,
          rest place isHere isThere]
  rw [same]
  exact sole.comp _

theorem Sole.inside {inner : Place → Option Token} {held : Option Place → Option Token}
    (sole : Sole held) (empty : held none = none)
    (same : ∀ place, held (some place) = inner place) :
    Sole inner := by
  intro token
  obtain ⟨place, isHeld, unique⟩ := sole token
  cases place with
  | none =>
      rw [empty] at isHeld
      cases isHeld
  | some place =>
      refine ⟨place, (same place).symm.trans isHeld, fun other isOther => ?_⟩
      exact Option.some.inj (unique (some other) ((same other).trans isOther))

end AimDb.Places
