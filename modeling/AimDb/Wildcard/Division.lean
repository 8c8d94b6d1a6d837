import Mathlib.Data.List.Flatten
import Mathlib.Data.List.Forall2
import Mathlib.Order.Basic
import AimDb.Wildcard.Rules

/-!
# Which part of the subject each segment has

A division gives every segment of the pattern its own run of the subject.  Of
all divisions the first one lets the spanning segments, from the left, take as
little as they can.
-/

namespace AimDb.Wildcard.Rules

universe u v

variable {P : Type u} {S : Type v} {R : Rules P S}

/-- The run one segment may have: absorbable segments for a spanning one, and
what it takes for any other. -/
def Fills (R : Rules P S) (p : P) (run : List S) : Prop :=
  R.Spans p ∧ (∀ s ∈ run, R.Absorbs s) ∨ ¬ R.Spans p ∧ ∃ s, run = [s] ∧ R.Takes p s

/-- The subject cut into one run for each segment of the pattern. -/
structure Division (R : Rules P S) (ps : List P) (ss : List S) (runs : List (List S)) : Prop where
  whole : runs.flatten = ss
  fills : List.Forall₂ R.Fills ps runs

theorem Matches.of_fills {ps : List P} {runs : List (List S)}
    (fills : List.Forall₂ R.Fills ps runs) : R.Matches ps runs.flatten := by
  induction fills with
  | nil => exact .nil
  | @cons p run ps runs head _ inductionHypothesis =>
      rw [List.flatten_cons]
      rcases head with ⟨spans, absorbs⟩ | ⟨single, s, rfl, takes⟩
      · exact (Matches.skip spans inductionHypothesis).absorb_run spans absorbs
      · exact .take single takes inductionHypothesis

theorem Matches.exists_fills {ps : List P} {ss : List S} (matched : R.Matches ps ss) :
    ∃ runs, R.Division ps ss runs := by
  induction matched with
  | nil => exact ⟨[], rfl, .nil⟩
  | skip spans _ inductionHypothesis =>
      obtain ⟨runs, rfl, fills⟩ := inductionHypothesis
      exact ⟨[] :: runs, rfl, .cons (.inl ⟨spans, by simp⟩) fills⟩
  | @absorb p ps s ss spans absorbs _ inductionHypothesis =>
      obtain ⟨runs, rfl, fills⟩ := inductionHypothesis
      cases fills with
      | @cons _ run _ runs head tail =>
          have absorbed : ∀ t ∈ run, R.Absorbs t := by
            rcases head with ⟨-, absorbed⟩ | ⟨single, -⟩
            · exact absorbed
            · exact absurd spans single
          exact ⟨(s :: run) :: runs, rfl,
            .cons (.inl ⟨spans, by simpa using ⟨absorbs, absorbed⟩⟩) tail⟩
  | @take p ps s ss single takes _ inductionHypothesis =>
      obtain ⟨runs, rfl, fills⟩ := inductionHypothesis
      exact ⟨[s] :: runs, rfl, .cons (.inr ⟨single, s, rfl, takes⟩) fills⟩

/-- A pattern matches a subject when the subject can be divided among its
segments. -/
theorem matches_iff_division {ps : List P} {ss : List S} :
    R.Matches ps ss ↔ ∃ runs, R.Division ps ss runs := by
  constructor
  · exact Matches.exists_fills
  · rintro ⟨runs, rfl, fills⟩
    exact .of_fills fills

section Spanned

variable [DecidablePred R.Spans]

def spanned (R : Rules P S) [DecidablePred R.Spans] : List P → List (List S) → List Nat
  | p :: ps, run :: runs =>
      if R.Spans p then run.length :: spanned R ps runs else spanned R ps runs
  | _, _ => []

/-- The spanning segments, from the left, have as little as they can. -/
structure First (R : Rules P S) [DecidablePred R.Spans] (ps : List P) (ss : List S)
    (runs : List (List S)) : Prop where
  division : R.Division ps ss runs
  least : ∀ others, R.Division ps ss others →
    ¬ List.Lex (· < ·) (R.spanned ps others) (R.spanned ps runs)

theorem fills_unique {ps : List P} {runs others : List (List S)}
    (fills : List.Forall₂ R.Fills ps runs) (otherFills : List.Forall₂ R.Fills ps others)
    (whole : runs.flatten = others.flatten) (same : R.spanned ps runs = R.spanned ps others) :
    runs = others := by
  induction fills generalizing others with
  | nil =>
      cases otherFills
      rfl
  | @cons p run ps runs head _ inductionHypothesis =>
      cases otherFills with
      | @cons _ other _ others otherHead otherTail =>
          simp only [spanned, List.flatten_cons] at same whole
          have lengths : run.length = other.length ∧ R.spanned ps runs = R.spanned ps others := by
            rcases head with ⟨spans, -⟩ | ⟨single, s, rfl, -⟩
            · rw [if_pos spans, if_pos spans] at same
              exact List.cons.inj same
            · rw [if_neg single, if_neg single] at same
              rcases otherHead with ⟨spans, -⟩ | ⟨-, t, rfl, -⟩
              · exact absurd spans single
              · exact ⟨rfl, same⟩
          obtain ⟨rfl, tails⟩ := List.append_inj whole lengths.1
          rw [inductionHypothesis otherTail tails lengths.2]

theorem First.unique {ps : List P} {ss : List S} {runs others : List (List S)}
    (first : R.First ps ss runs) (second : R.First ps ss others) : runs = others := by
  apply fills_unique first.division.fills second.division.fills
  · rw [first.division.whole, second.division.whole]
  · exact List.le_antisymm (first.least others second.division) (second.least runs first.division)

end Spanned

/-- Every spanning segment stops at the first place where the pattern behind it
matches. -/
inductive Earliest (R : Rules P S) : List P → List S → List (List S) → Prop where
  | nil : Earliest R [] [] []
  | span {p ps run ss runs} : R.Spans p → (∀ s ∈ run, R.Absorbs s) →
      (∀ k < run.length, ¬ R.Matches ps ((run ++ ss).drop k)) → Earliest R ps ss runs →
      Earliest R (p :: ps) (run ++ ss) (run :: runs)
  | take {p ps s ss runs} : ¬ R.Spans p → R.Takes p s → Earliest R ps ss runs →
      Earliest R (p :: ps) (s :: ss) ([s] :: runs)

theorem Earliest.division {ps : List P} {ss : List S} {runs : List (List S)}
    (earliest : R.Earliest ps ss runs) : R.Division ps ss runs := by
  induction earliest with
  | nil => exact ⟨rfl, .nil⟩
  | span spans absorbs _ _ inductionHypothesis =>
      obtain ⟨rfl, fills⟩ := inductionHypothesis
      exact ⟨rfl, .cons (.inl ⟨spans, absorbs⟩) fills⟩
  | take single takes _ inductionHypothesis =>
      obtain ⟨rfl, fills⟩ := inductionHypothesis
      exact ⟨rfl, .cons (.inr ⟨single, _, rfl, takes⟩) fills⟩

theorem Earliest.block {block ps : List P} {taken ss : List S} {runs : List (List S)}
    (single : ∀ p ∈ block, ¬ R.Spans p) (takes : List.Forall₂ R.Takes block taken)
    (earliest : R.Earliest ps ss runs) :
    R.Earliest (block ++ ps) (taken ++ ss) (taken.map (fun s => [s]) ++ runs) := by
  induction takes with
  | nil => exact earliest
  | cons takesHead _ inductionHypothesis =>
      apply Earliest.take (single _ (by simp)) takesHead
      exact inductionHypothesis fun p later => single p (by simp [later])

theorem Earliest.not_lex [DecidablePred R.Spans] {ps : List P} {ss : List S}
    {runs others : List (List S)} (earliest : R.Earliest ps ss runs)
    (other : R.Division ps ss others) :
    ¬ List.Lex (· < ·) (R.spanned ps others) (R.spanned ps runs) := by
  induction earliest generalizing others with
  | nil =>
      obtain ⟨-, fills⟩ := other
      cases fills
      exact List.not_lex_nil
  | @span p ps run ss runs spans _ stops _ inductionHypothesis =>
      obtain ⟨whole, fills⟩ := other
      cases fills with
      | @cons _ first _ others _ fills =>
          rw [List.flatten_cons] at whole
          simp only [spanned, if_pos spans, List.cons_lex_cons_iff]
          rintro (shorter | ⟨same, later⟩)
          · -- a shorter run would leave a match behind it
            have rest : (run ++ ss).drop first.length = others.flatten := by
              rw [← whole, List.drop_left]
            have noMatch := stops first.length shorter
            rw [rest] at noMatch
            exact noMatch (Matches.of_fills fills)
          · obtain ⟨rfl, rest⟩ := List.append_inj whole same
            exact inductionHypothesis ⟨rest, fills⟩ later
  | @take p ps s ss runs single _ _ inductionHypothesis =>
      obtain ⟨whole, fills⟩ := other
      cases fills with
      | @cons _ first _ others head fills =>
          rcases head with ⟨spans, -⟩ | ⟨-, t, rfl, -⟩
          · exact absurd spans single
          · obtain ⟨rfl, rest⟩ := List.cons.inj whole
            simp only [spanned, if_neg single]
            exact inductionHypothesis ⟨rest, fills⟩

theorem Earliest.first [DecidablePred R.Spans] {ps : List P} {ss : List S}
    {runs : List (List S)} (earliest : R.Earliest ps ss runs) : R.First ps ss runs :=
  ⟨earliest.division, fun _ other => earliest.not_lex other⟩

end AimDb.Wildcard.Rules
