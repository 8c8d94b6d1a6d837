import AimDb.Contracts.Lock.Shape.Written

/-!
# A shape text determines the wire shape

Two formats written as the same text unroll to the same tree, whatever their
containers are called and however they refer to each other.
-/

namespace AimDb.Contracts.Shape

open Unrolling

theorem inline_of_render {format : Format} {registry : Registry} {text : String}
    (rendered : render format registry = .ok text) :
    ∃ term, Inline registry [] format term ∧
      readTerm (text.length + 1) text.toList = some (term, []) := by
  have spec := writeFormat_spec registry [] format
  rw [render] at rendered
  rw [rendered] at spec
  cases spec with
  | ok isGood =>
      obtain ⟨term, inlined, reads⟩ := isGood
      have back := reads.back (text.length + 1) [] (by simp [Ends]) (Nat.lt_succ_self _)
      rw [List.append_nil] at back
      exact ⟨term, inlined, back⟩

theorem exists_render_iff {format : Format} {registry : Registry} :
    (∃ text, render format registry = .ok text) ↔ FullyTraced registry format := by
  constructor
  · rintro ⟨text, rendered⟩
    obtain ⟨term, inlined, -⟩ := inline_of_render rendered
    exact whole_of_inlines inlined
  · intro traced
    have spec := writeFormat_spec registry [] format
    rw [render]
    generalize writeFormat registry [] format = result at spec
    cases spec with
    | ok isGood => exact ⟨_, rfl⟩
    | error untraced => exact absurd traced untraced

theorem unrolling_eq_of_render {format format' : Format} {registry registry' : Registry}
    {text : String} (rendered : render format registry = .ok text)
    (rendered' : render format' registry' = .ok text) :
    unrolling registry format = unrolling registry' format' := by
  obtain ⟨term, inlined, read⟩ := inline_of_render rendered
  obtain ⟨term', inlined', read'⟩ := inline_of_render rendered'
  obtain rfl : term = term' := by
    rw [read] at read'
    exact congrArg Prod.fst (Option.some.inj read')
  rw [unrolling, unrolling, unroll_eq_of_inlines inlined, unroll_eq_of_inlines inlined']

def Collision (crates : Crates) (text text' : String) : Prop :=
  text ≠ text' ∧ crates.sha256 text.toUTF8 = crates.sha256 text'.toUTF8

theorem digitChar_injective :
    ∀ n < 16, ∀ m < 16, Nat.digitChar n = Nat.digitChar m → n = m := by
  decide

theorem lowerHex2_injective : Function.Injective lowerHex2 := by
  intro byte byte' same
  have small := byte.toNat_lt
  have small' := byte'.toNat_lt
  rw [lowerHex2, lowerHex2, List.cons_eq_cons, List.cons_eq_cons] at same
  have high := digitChar_injective _ (by omega) _ (by omega) same.1
  have low := digitChar_injective _ (by omega) _ (by omega) same.2.1
  apply UInt8.toNat_inj.mp
  omega

theorem flatMap_lowerHex2_injective {bytes bytes' : List UInt8}
    (same : bytes.flatMap lowerHex2 = bytes'.flatMap lowerHex2) : bytes = bytes' := by
  induction bytes generalizing bytes' with
  | nil =>
      cases bytes' with
      | nil => rfl
      | cons byte' bytes' => cases same
  | cons byte bytes inductionHypothesis =>
      cases bytes' with
      | nil => cases same
      | cons byte' bytes' =>
          rw [List.flatMap_cons, List.flatMap_cons] at same
          obtain ⟨first, others⟩ := List.append_inj same rfl
          rw [lowerHex2_injective first, inductionHypothesis others]

theorem sha256_eq_of_hash {crates : Crates} {text text' : String}
    (same : crates.hash text = crates.hash text') :
    crates.sha256 text.toUTF8 = crates.sha256 text'.toUTF8 := by
  rw [Crates.hash, Crates.hash] at same
  have chars := congrArg String.toList same
  simp only [String.toList_append, String.toList_ofList, List.append_cancel_left_eq] at chars
  exact flatMap_lowerHex2_injective chars

/-- A format traced in full has a shape text, formats with one shape text have one wire
shape, and formats with one hash have, but for a collision. -/
theorem shape_determined (format : Format) (registry : Registry) :
    ((∃ text, render format registry = .ok text) ↔ FullyTraced registry format) ∧
    ∀ format' registry' text text', render format registry = .ok text →
      render format' registry' = .ok text' →
      (text = text' → unrolling registry format = unrolling registry' format') ∧
      ∀ crates : Crates, crates.hash text = crates.hash text' →
        unrolling registry format = unrolling registry' format' ∨
        Collision crates text text' := by
  refine ⟨exists_render_iff, fun format' registry' text text' rendered rendered' => ?_⟩
  have determined : text = text' → unrolling registry format = unrolling registry' format' := by
    rintro rfl
    exact unrolling_eq_of_render rendered rendered'
  refine ⟨determined, fun crates same => ?_⟩
  by_cases texts : text = text'
  · exact .inl (determined texts)
  · exact .inr ⟨texts, sha256_eq_of_hash same⟩

end AimDb.Contracts.Shape
