import Mathlib.Data.List.Basic
import Mathlib.Data.List.Induction
import Mathlib.Tactic.Common

/-!
# Wildcard patterns that may not take everything

A pattern is a list of segments.  A spanning segment absorbs a run of subject
segments, every other segment takes exactly one.  Some subject segments can be
absorbed by no one: only a segment that names them takes them.

A pattern over patterns and a pattern over concrete subjects are both
instances, and matches of the two compose.
-/

namespace AimDb.Wildcard

universe u v w

/-- Which pattern segments span, which subject segments may be absorbed, and
which subject segments a segment that does not span takes. -/
structure Rules (P : Type u) (S : Type v) where
  Spans : P → Prop
  Absorbs : S → Prop
  Takes : P → S → Prop

namespace Rules

variable {P : Type u} {Q : Type v} {S : Type w}

/-- The pattern splits the whole subject among its segments. -/
inductive Matches (R : Rules P S) : List P → List S → Prop where
  | nil : Matches R [] []
  | skip {p ps ss} : R.Spans p → Matches R ps ss → Matches R (p :: ps) ss
  | absorb {p ps s ss} : R.Spans p → R.Absorbs s → Matches R (p :: ps) ss →
      Matches R (p :: ps) (s :: ss)
  | take {p ps s ss} : ¬ R.Spans p → R.Takes p s → Matches R ps ss →
      Matches R (p :: ps) (s :: ss)

variable {R : Rules P S}

@[simp]
theorem matches_nil_iff {ss : List S} : R.Matches [] ss ↔ ss = [] := by
  constructor
  · intro matched
    cases matched
    rfl
  · rintro rfl
    exact .nil

theorem matches_take_iff {p : P} {ps : List P} {ss : List S} (single : ¬ R.Spans p) :
    R.Matches (p :: ps) ss ↔ ∃ s rest, ss = s :: rest ∧ R.Takes p s ∧
        R.Matches ps rest := by
  constructor
  · intro matched
    cases matched with
    | skip spans _ => exact absurd spans single
    | absorb spans _ _ => exact absurd spans single
    | take _ takes tail => exact ⟨_, _, rfl, takes, tail⟩
  · rintro ⟨s, rest, rfl, takes, tail⟩
    exact .take single takes tail

theorem matches_take_cons_iff {p : P} {ps : List P} {s : S} {ss : List S}
    (single : ¬ R.Spans p) :
    R.Matches (p :: ps) (s :: ss) ↔ R.Takes p s ∧ R.Matches ps ss := by
  rw [matches_take_iff single]
  constructor
  · rintro ⟨_, _, whole, takes, tail⟩
    obtain ⟨rfl, rfl⟩ := List.cons.inj whole
    exact ⟨takes, tail⟩
  · rintro ⟨takes, tail⟩
    exact ⟨s, ss, rfl, takes, tail⟩

theorem not_matches_take_nil {p : P} {ps : List P} (single : ¬ R.Spans p) :
    ¬ R.Matches (p :: ps) [] := by
  rw [matches_take_iff single]
  rintro ⟨_, _, whole, -, -⟩
  cases whole

theorem matches_span_nil_iff {p : P} {ps : List P} (spans : R.Spans p) :
    R.Matches (p :: ps) [] ↔ R.Matches ps [] := by
  constructor
  · intro matched
    cases matched with
    | skip _ tail => exact tail
  · exact .skip spans

theorem matches_span_cons_iff {p : P} {ps : List P} {s : S} {ss : List S} (spans : R.Spans p) :
    R.Matches (p :: ps) (s :: ss) ↔
      R.Matches ps (s :: ss) ∨ R.Absorbs s ∧ R.Matches (p :: ps) ss := by
  constructor
  · intro matched
    cases matched with
    | skip _ tail => exact .inl tail
    | absorb _ absorbs tail => exact .inr ⟨absorbs, tail⟩
    | take single _ _ => exact absurd spans single
  · rintro (tail | ⟨absorbs, tail⟩)
    · exact .skip spans tail
    · exact .absorb spans absorbs tail

theorem Matches.absorb_run {p : P} {ps : List P} {run rest : List S} (spans : R.Spans p)
    (absorbs : ∀ s ∈ run, R.Absorbs s) (matched : R.Matches (p :: ps) rest) :
    R.Matches (p :: ps) (run ++ rest) := by
  induction run with
  | nil => exact matched
  | cons s run inductionHypothesis =>
      apply Matches.absorb spans (absorbs s (by simp))
      exact inductionHypothesis fun t inRun => absorbs t (by simp [inRun])

theorem matches_span_iff {p : P} {ps : List P} {ss : List S} (spans : R.Spans p) :
    R.Matches (p :: ps) ss ↔
      ∃ run rest, ss = run ++ rest ∧ (∀ s ∈ run, R.Absorbs s) ∧ R.Matches ps rest := by
  constructor
  · intro matched
    induction ss with
    | nil =>
        cases matched with
        | skip _ tail => exact ⟨[], [], rfl, by simp, tail⟩
    | cons s ss inductionHypothesis =>
        cases matched with
        | skip _ tail => exact ⟨[], s :: ss, rfl, by simp, tail⟩
        | absorb _ absorbs tail =>
            obtain ⟨run, rest, rfl, all, restMatched⟩ := inductionHypothesis tail
            exact ⟨s :: run, rest, rfl, by simpa using ⟨absorbs, all⟩, restMatched⟩
        | take single _ _ => exact absurd spans single
  · rintro ⟨run, rest, rfl, absorbs, tail⟩
    exact (Matches.skip spans tail).absorb_run spans absorbs

theorem Matches.block {block ps : List P} {taken ss : List S}
    (single : ∀ p ∈ block, ¬ R.Spans p) (takes : List.Forall₂ R.Takes block taken)
    (matched : R.Matches ps ss) : R.Matches (block ++ ps) (taken ++ ss) := by
  induction takes with
  | nil => exact matched
  | cons takesHead _ inductionHypothesis =>
      apply Matches.take (single _ (by simp)) takesHead
      exact inductionHypothesis fun p later => single p (by simp [later])

/-- `upper` reads patterns of `lower`, and `whole` is what both say together. -/
structure Composes (upper : Rules P Q) (lower : Rules Q S) (whole : Rules P S) : Prop where
  spans : ∀ p, whole.Spans p ↔ upper.Spans p
  single : ∀ p q, upper.Takes p q → ¬ lower.Spans q
  takes : ∀ p q s, upper.Takes p q → lower.Takes q s → whole.Takes p s
  absorbs_taken : ∀ q s, upper.Absorbs q → ¬ lower.Spans q → lower.Takes q s →
    whole.Absorbs s
  absorbs_run : ∀ q s, upper.Absorbs q → lower.Spans q → lower.Absorbs s → whole.Absorbs s

theorem Matches.comp {upper : Rules P Q} {lower : Rules Q S} {whole : Rules P S}
    (composes : Composes upper lower whole) {ps : List P} {qs : List Q} {ss : List S}
    (above : upper.Matches ps qs) (below : lower.Matches qs ss) : whole.Matches ps ss := by
  induction above generalizing ss with
  | nil =>
      cases below
      exact .nil
  | skip spans _ inductionHypothesis =>
      exact .skip ((composes.spans _).mpr spans) (inductionHypothesis below)
  | @absorb p ps q qs spans absorbs _ inductionHypothesis =>
      have wholeSpans : whole.Spans p := (composes.spans p).mpr spans
      by_cases lowerSpans : lower.Spans q
      · obtain ⟨run, rest, rfl, absorbed, tail⟩ := (matches_span_iff lowerSpans).mp below
        apply Matches.absorb_run wholeSpans
        · intro s inRun
          exact composes.absorbs_run q s absorbs lowerSpans (absorbed s inRun)
        · exact inductionHypothesis tail
      · obtain ⟨s, rest, rfl, takes, tail⟩ := (matches_take_iff lowerSpans).mp below
        apply Matches.absorb wholeSpans
        · exact composes.absorbs_taken q s absorbs lowerSpans takes
        · exact inductionHypothesis tail
  | @take p ps q qs single takes _ inductionHypothesis =>
      obtain ⟨s, rest, rfl, lowerTakes, tail⟩ :=
        (matches_take_iff (composes.single p q takes)).mp below
      apply Matches.take
      · rwa [composes.spans]
      · exact composes.takes p q s takes lowerTakes
      · exact inductionHypothesis tail

theorem matches_refl {R : Rules P P} {ps : List P}
    (absorbs : ∀ p ∈ ps, R.Spans p → R.Absorbs p)
    (takes : ∀ p ∈ ps, ¬ R.Spans p → R.Takes p p) : R.Matches ps ps := by
  induction ps with
  | nil => exact .nil
  | cons p ps inductionHypothesis =>
      have tail : R.Matches ps ps := by
        apply inductionHypothesis
        · exact fun q inTail => absorbs q (by simp [inTail])
        · exact fun q inTail => takes q (by simp [inTail])
      by_cases spans : R.Spans p
      · exact .absorb spans (absorbs p (by simp) spans) (.skip spans tail)
      · exact .take spans (takes p (by simp) spans) tail

def Same (R : Rules P S) (ps qs : List P) : Prop :=
  ∀ ss, R.Matches ps ss ↔ R.Matches qs ss

theorem Same.refl (ps : List P) : R.Same ps ps :=
  fun _ => Iff.rfl

theorem Same.trans {ps qs rs : List P} (first : R.Same ps qs) (second : R.Same qs rs) :
    R.Same ps rs :=
  fun ss => (first ss).trans (second ss)

theorem Same.cons (p : P) {ps qs : List P} (same : R.Same ps qs) :
    R.Same (p :: ps) (p :: qs) := by
  intro ss
  by_cases spans : R.Spans p
  · simp only [matches_span_iff spans, same _]
  · simp only [matches_take_iff spans, same _]

theorem Same.append (front : List P) {ps qs : List P} (same : R.Same ps qs) :
    R.Same (front ++ ps) (front ++ qs) := by
  induction front with
  | nil => exact same
  | cons p front inductionHypothesis => exact inductionHypothesis.cons p

theorem matches_congr_head {p q : P} (ps : List P) (spansIff : R.Spans p ↔ R.Spans q)
    (takesIff : ∀ s, R.Takes p s ↔ R.Takes q s) : R.Same (p :: ps) (q :: ps) := by
  intro ss
  by_cases spans : R.Spans p
  · simp only [matches_span_iff spans, matches_span_iff (spansIff.mp spans)]
  · have single : ¬ R.Spans q := fun other => spans (spansIff.mpr other)
    simp only [matches_take_iff spans, matches_take_iff single, takesIff]

theorem same_span_span {p q : P} (ps : List P) (spansP : R.Spans p) (spansQ : R.Spans q) :
    R.Same (p :: q :: ps) (q :: ps) := by
  intro ss
  constructor
  · intro matched
    obtain ⟨run, rest, rfl, absorbs, tail⟩ := (matches_span_iff spansP).mp matched
    exact tail.absorb_run spansQ absorbs
  · exact .skip spansP

theorem same_span_any {p any : P} (ps : List P) (spans : R.Spans p) (single : ¬ R.Spans any)
    (takes : ∀ s, R.Takes any s ↔ R.Absorbs s) :
    R.Same (p :: any :: ps) (any :: p :: ps) := by
  intro ss
  rw [matches_span_iff spans, matches_take_iff single]
  constructor
  · rintro ⟨run, rest, rfl, absorbs, tail⟩
    obtain ⟨s, rest, rfl, takesS, tail⟩ := (matches_take_iff single).mp tail
    cases run with
    | nil => exact ⟨s, rest, rfl, takesS, .skip spans tail⟩
    | cons t run =>
        refine ⟨t, run ++ s :: rest, rfl, (takes t).mpr (absorbs t (by simp)), ?_⟩
        apply Matches.absorb_run spans fun r inRun => absorbs r (by simp [inRun])
        exact .absorb spans ((takes s).mp takesS) (.skip spans tail)
  · rintro ⟨s, rest, rfl, takesS, spanned⟩
    obtain ⟨run, rest, rfl, absorbs, tail⟩ := (matches_span_iff spans).mp spanned
    clear spanned
    -- what `any` took moves to the end of the run
    cases run using List.reverseRecOn with
    | nil => exact ⟨[], s :: rest, rfl, by simp, .take single takesS tail⟩
    | append_singleton run t =>
        refine ⟨s :: run, t :: rest, by simp, ?_, .take single ?_ tail⟩
        · intro r inRun
          rcases List.mem_cons.mp inRun with rfl | later
          · exact (takes r).mp takesS
          · exact absorbs r (by simp [later])
        · exact (takes t).mpr (absorbs t (by simp))

/-- Two segments, perhaps under different rules, do the same. -/
def Alike (R : Rules P S) (T : Rules Q S) (p : P) (q : Q) : Prop :=
  (R.Spans p ↔ T.Spans q) ∧ (¬ R.Spans p → ∀ s, R.Takes p s ↔ T.Takes q s)

theorem matches_congr {T : Rules Q S} (absorbs : ∀ s, R.Absorbs s ↔ T.Absorbs s)
    {ps : List P} {qs : List Q} (alike : List.Forall₂ (Alike R T) ps qs) (ss : List S) :
    R.Matches ps ss ↔ T.Matches qs ss := by
  induction alike generalizing ss with
  | nil => simp
  | @cons p q ps qs head _ inductionHypothesis =>
      obtain ⟨spansIff, takesIff⟩ := head
      by_cases spans : R.Spans p
      · simp only [matches_span_iff spans, matches_span_iff (spansIff.mp spans), absorbs,
          inductionHypothesis]
      · have single : ¬ T.Spans q := fun other => spans (spansIff.mpr other)
        simp only [matches_take_iff spans, matches_take_iff single, takesIff spans,
          inductionHypothesis]

end Rules

end AimDb.Wildcard

namespace AimDb.Wildcard.Rules

universe u v

variable {P : Type u} {S : Type v} {R : Rules P S}

/-- A subject segment that nothing absorbs is taken by name: whatever takes it
takes nothing else. -/
def Named (R : Rules P S) : Prop :=
  ∀ {p s t}, R.Takes p s → ¬ R.Absorbs s → R.Takes p t → t = s

theorem matches_block_iff {block ps : List P} {ss : List S}
    (single : ∀ p ∈ block, ¬ R.Spans p) :
    R.Matches (block ++ ps) ss ↔
      ∃ taken rest, ss = taken ++ rest ∧ List.Forall₂ R.Takes block taken ∧
      R.Matches ps rest := by
  constructor
  · intro matched
    induction block generalizing ss with
    | nil => exact ⟨[], ss, rfl, .nil, matched⟩
    | cons p block inductionHypothesis =>
        obtain ⟨s, rest, rfl, takes, tail⟩ := (matches_take_iff (single p (by simp))).mp matched
        obtain ⟨taken, rest, rfl, allTaken, behind⟩ :=
          inductionHypothesis (fun q later => single q (by simp [later])) tail
        exact ⟨s :: taken, rest, rfl, .cons takes allTaken, behind⟩
  · rintro ⟨taken, rest, rfl, takes, tail⟩
    exact Matches.block single takes tail

/-- What lies between two fits of one block is absorbable. The segments of the
gap are, and so is, block segment by block segment, what the later fit takes. -/
theorem exists_between (named : R.Named) {block : List P} {gap taken later rest last : List S}
    (absorbs : ∀ s ∈ gap, R.Absorbs s) (first : List.Forall₂ R.Takes block taken)
    (second : List.Forall₂ R.Takes block later) (same : taken ++ rest = gap ++ (later ++ last)) :
    ∃ between, rest = between ++ last ∧ ∀ s ∈ between, R.Absorbs s := by
  induction first generalizing gap later with
  | nil =>
      cases second
      exact ⟨gap, same, absorbs⟩
  | @cons p a block taken takesFirst _ inductionHypothesis =>
      cases second with
      | @cons _ b _ later takesSecond rests =>
          cases gap with
          | nil =>
              obtain ⟨-, tails⟩ := List.cons.inj same
              have none : ∀ s ∈ ([] : List S), R.Absorbs s := by simp
              exact inductionHypothesis none rests tails
          | cons g gap =>
              obtain ⟨rfl, tails⟩ : a = g ∧ taken ++ rest = gap ++ (b :: later ++ last) :=
                List.cons.inj same
              have absorbsA : R.Absorbs a := absorbs a (by simp)
              have absorbsB : R.Absorbs b := by
                by_contra fixed
                rw [named takesSecond fixed takesFirst] at absorbsA
                exact fixed absorbsA
              have absorbsGap : ∀ s ∈ gap ++ [b], R.Absorbs s := by
                intro s inGap
                rcases List.mem_append.mp inGap with inside | isB
                · exact absorbs s (by simp [inside])
                · obtain rfl := List.mem_singleton.mp isB
                  exact absorbsB
              exact inductionHypothesis absorbsGap rests (by simpa using tails)

/-- The pattern behind a block still matches when the block takes the earliest
place it fits. -/
theorem Matches.of_earliest (named : R.Named) {p : P} {block ps : List P} {taken rest : List S}
    (spans : R.Spans p) (single : ∀ q ∈ block, ¬ R.Spans q)
    (next : ∀ q ∈ ps.head?, R.Spans q) (used : ps = [] → rest = [])
    (takes : List.Forall₂ R.Takes block taken)
    (matched : R.Matches (p :: (block ++ ps)) (taken ++ rest)) : R.Matches ps rest := by
  obtain ⟨gap, behind, same, absorbs, matched⟩ := (matches_span_iff spans).mp matched
  obtain ⟨later, last, rfl, takesLater, tail⟩ := (matches_block_iff single).mp matched
  obtain ⟨between, rfl, absorbsBetween⟩ := exists_between named absorbs takes takesLater same
  cases ps with
  | nil =>
      rw [used rfl]
      exact .nil
  | cons q ps => exact tail.absorb_run (next q (by simp)) absorbsBetween

end AimDb.Wildcard.Rules
