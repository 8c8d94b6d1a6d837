import AimDb.Wildcard.Rules
import Mathlib.Data.List.Basic
import Mathlib.Data.List.Infix
import Mathlib.Tactic.Common

/-!
# Globs inside one segment

A glob is a list of pieces with any text between two of them.  `Loosens` lets
marked letters of a text stand for arbitrary text, so that a glob read against
another glob's spelling says what it does to every text of the latter.
-/

namespace AimDb.Wildcard.Glob

universe u

variable {α : Type u}

/-- `text` is the pieces in order, with any text between two of them. -/
def Fits : List (List α) → List α → Prop
  | [], _ => False
  | [piece], text => text = piece
  | piece :: next :: more, text =>
      ∃ gap rest, text = piece ++ gap ++ rest ∧ Fits (next :: more) rest

/-- `text` is `spelling` with every marked letter kept or replaced by any text. -/
inductive Loosens (Marked : α → Prop) : List α → List α → Prop where
  | nil : Loosens Marked [] []
  | keep (a : α) {spelling text} : Loosens Marked spelling text →
      Loosens Marked (a :: spelling) (a :: text)
  | fill {a : α} (filling : List α) {spelling text} : Marked a →
    Loosens Marked spelling text →
      Loosens Marked (a :: spelling) (filling ++ text)

variable {Marked : α → Prop}

theorem Loosens.refl (spelling : List α) : Loosens Marked spelling spelling := by
  induction spelling with
  | nil => exact .nil
  | cons a spelling inductionHypothesis => exact .keep a inductionHypothesis

theorem Loosens.append {first second text rest : List α} (head : Loosens Marked first text)
    (tail : Loosens Marked second rest) : Loosens Marked (first ++ second) (text ++ rest) := by
  induction head with
  | nil => exact tail
  | keep a _ inductionHypothesis => exact .keep a inductionHypothesis
  | fill filling marked _ inductionHypothesis =>
      rw [List.append_assoc]
      exact .fill filling marked inductionHypothesis

theorem Loosens.split {first second text : List α}
    (loosens : Loosens Marked (first ++ second) text) :
    ∃ head tail, text = head ++ tail ∧ Loosens Marked first head ∧
        Loosens Marked second tail := by
  induction first generalizing text with
  | nil => exact ⟨[], text, rfl, .nil, loosens⟩
  | cons a first inductionHypothesis =>
      cases loosens with
      | keep _ rest =>
          obtain ⟨head, tail, rfl, left, right⟩ := inductionHypothesis rest
          exact ⟨a :: head, tail, rfl, .keep a left, right⟩
      | fill filling marked rest =>
          obtain ⟨head, tail, rfl, left, right⟩ := inductionHypothesis rest
          exact ⟨filling ++ head, tail, by simp, .fill filling marked left, right⟩

theorem Loosens.eq_of_unmarked {spelling text : List α} (loosens : Loosens Marked spelling text)
    (unmarked : ∀ a ∈ spelling, ¬ Marked a) : text = spelling := by
  induction loosens with
  | nil => rfl
  | keep a _ inductionHypothesis =>
      rw [inductionHypothesis fun b inTail => unmarked b (by simp [inTail])]
  | fill _ marked _ _ => exact absurd marked (unmarked _ (by simp))

theorem loosens_mark {mark : List α} (some : mark ≠ []) (marked : ∀ a ∈ mark, Marked a)
    (filling : List α) : Loosens Marked mark filling := by
  induction mark generalizing filling with
  | nil => exact absurd rfl some
  | cons a mark inductionHypothesis =>
      have markedHead : Marked a := marked a (by simp)
      by_cases last : mark = []
      · subst last
        simpa using Loosens.fill filling markedHead .nil
      · have rest := inductionHypothesis last (fun b inTail => marked b (by simp [inTail])) filling
        simpa using Loosens.fill [] markedHead rest

theorem loosens_of_fits {mark : List α} (some : mark ≠ []) (marked : ∀ a ∈ mark, Marked a)
    {pieces : List (List α)} {text : List α} (fits : Fits pieces text) :
    Loosens Marked (mark.intercalate pieces) text := by
  induction pieces, text using Fits.induct with
  | case1 text => exact absurd fits (by simp [Fits])
  | case2 piece text =>
      obtain rfl : text = piece := fits
      simpa using Loosens.refl text
  | case3 piece next more text inductionHypothesis =>
      obtain ⟨gap, rest, rfl, tail⟩ := fits
      rw [List.intercalate_cons_cons]
      apply Loosens.append
      · exact (Loosens.refl piece).append (loosens_mark some marked gap)
      · exact inductionHypothesis rest tail

theorem fits_intercalate (mark : List α) {pieces : List (List α)} (some : pieces ≠ []) :
    Fits pieces (mark.intercalate pieces) := by
  induction pieces with
  | nil => exact absurd rfl some
  | cons piece more inductionHypothesis =>
      cases more with
      | nil => simp [Fits]
      | cons next more =>
          refine ⟨mark, mark.intercalate (next :: more), ?_, inductionHypothesis (by simp)⟩
          exact List.intercalate_cons_cons

theorem Fits.loosen {pieces : List (List α)} {spelling text : List α}
    (fits : Fits pieces spelling) (unmarked : ∀ piece ∈ pieces, ∀ a ∈ piece, ¬ Marked a)
    (loosens : Loosens Marked spelling text) : Fits pieces text := by
  induction pieces, spelling using Fits.induct generalizing text with
  | case1 spelling => exact fits
  | case2 piece spelling =>
      obtain rfl : spelling = piece := fits
      exact loosens.eq_of_unmarked (unmarked spelling (by simp))
  | case3 piece next more spelling inductionHypothesis =>
      obtain ⟨gap, rest, rfl, tail⟩ := fits
      obtain ⟨front, textRest, rfl, frontLoosens, restLoosens⟩ := loosens.split
      obtain ⟨textPiece, textGap, rfl, pieceLoosens, -⟩ := frontLoosens.split
      obtain rfl := pieceLoosens.eq_of_unmarked (unmarked piece (by simp))
      refine ⟨textGap, textRest, rfl, ?_⟩
      exact inductionHypothesis rest tail (fun p inTail => unmarked p (by simp_all)) restLoosens

theorem Fits.comp {mark : List α} {outer inner : List (List α)} {text : List α}
    (some : mark ≠ []) (unmarked : ∀ piece ∈ outer, ∀ a ∈ piece, a ∉ mark)
    (above : Fits outer (mark.intercalate inner)) (below : Fits inner text) :
    Fits outer text :=
  have loosens : Loosens (· ∈ mark) (mark.intercalate inner) text :=
    loosens_of_fits some (fun _ inMark => inMark) below
  above.loosen unmarked loosens

/-- The middle pieces occur in `body` one after the other. -/
def Scans : List (List α) → List α → Prop
  | [], _ => True
  | middle :: middles, body => ∃ gap rest, body = gap ++ middle ++ rest ∧ Scans middles rest

theorem Scans.grow {middles : List (List α)} {short long : List α} (scans : Scans middles short)
    (longer : short <:+ long) : Scans middles long := by
  cases middles with
  | nil => trivial
  | cons middle middles =>
      obtain ⟨front, rfl⟩ := longer
      obtain ⟨gap, rest, rfl, tail⟩ := scans
      exact ⟨front ++ gap, rest, by simp, tail⟩

/-- The outer pieces sit at the ends and the others are found between them. -/
theorem fits_iff_scans {first last : List α} {middles : List (List α)} {text : List α} :
    Fits (first :: (middles ++ [last])) text ↔
      ∃ body, text = first ++ body ++ last ∧ Scans middles body := by
  induction middles generalizing first text with
  | nil =>
      constructor
      · rintro ⟨gap, rest, rfl, rfl⟩
        exact ⟨gap, rfl, trivial⟩
      · rintro ⟨body, rfl, -⟩
        exact ⟨body, last, rfl, rfl⟩
  | cons middle middles inductionHypothesis =>
      constructor
      · rintro ⟨gap, rest, rfl, tail⟩
        obtain ⟨body, rfl, scans⟩ := inductionHypothesis.mp tail
        exact ⟨gap ++ middle ++ body, by simp, gap, body, rfl, scans⟩
      · rintro ⟨_, rfl, gap, body, rfl, scans⟩
        refine ⟨gap, middle ++ body ++ last, by simp, ?_⟩
        exact inductionHypothesis.mpr ⟨body, rfl, scans⟩

theorem scans_filter_iff {middles : List (List α)} {body : List α} :
    Scans (middles.filter fun m => !m.isEmpty) body ↔ Scans middles body := by
  induction middles generalizing body with
  | nil => rfl
  | cons middle middles inductionHypothesis =>
      cases middle with
      | nil =>
          rw [List.filter_cons_of_neg (by simp), inductionHypothesis]
          constructor
          · exact fun scans => ⟨[], body, rfl, scans⟩
          · rintro ⟨gap, rest, rfl, scans⟩
            exact scans.grow ⟨gap, by simp⟩
      | cons a middle =>
          rw [List.filter_cons_of_pos (by simp)]
          simp only [Scans, inductionHypothesis]

section Search

variable [DecidableEq α]

/-- Where `needle` first occurs. -/
def find (needle : List α) : List α → Option Nat
  | [] => if needle = [] then some 0 else none
  | a :: text => if needle <+: a :: text then some 0 else (find needle text).map (· + 1)

/-- Each middle piece is taken where it first occurs. -/
def scan : List (List α) → List α → Bool
  | [], _ => true
  | middle :: middles, body =>
      match find middle body with
      | some i => scan middles (body.drop (i + middle.length))
      | none => false

theorem find_spec {needle text : List α} {i : Nat} (found : find needle text = some i) :
    text = text.take i ++ needle ++ text.drop (i + needle.length) := by
  induction text generalizing i with
  | nil =>
      by_cases empty : needle = [] <;> simp_all [find]
  | cons a text inductionHypothesis =>
      rw [find] at found
      split at found
      · rename_i starts
        obtain ⟨rest, whole⟩ := starts
        obtain rfl : 0 = i := by simpa using found
        simp [← whole]
      · obtain ⟨j, later, rfl⟩ := Option.map_eq_some_iff.mp found
        have tail := inductionHypothesis later
        rw [Nat.add_right_comm]
        simpa using tail

theorem find_leftmost (gap needle rest : List α) :
    ∃ i ≤ gap.length, find needle (gap ++ needle ++ rest) = some i := by
  induction gap with
  | nil =>
      refine ⟨0, Nat.le_refl _, ?_⟩
      cases whole : needle ++ rest with
      | nil => simp_all [find]
      | cons a text =>
          have starts : needle <+: a :: text := whole ▸ List.prefix_append needle rest
          simp [whole, find, starts]
  | cons a gap inductionHypothesis =>
      obtain ⟨i, before, found⟩ := inductionHypothesis
      by_cases starts : needle <+: a :: (gap ++ needle ++ rest)
      · exact ⟨0, Nat.zero_le _, by simp only [List.cons_append, find, if_pos starts]⟩
      · refine ⟨i + 1, by simpa using before, ?_⟩
        simp only [List.cons_append, find, if_neg starts, found, Option.map_some]

/-- Taking each piece where it first occurs leaves most to the later ones. -/
theorem scan_iff {middles : List (List α)} {body : List α} :
    scan middles body = true ↔ Scans middles body := by
  induction middles generalizing body with
  | nil => simp [scan, Scans]
  | cons middle middles inductionHypothesis =>
      rw [scan]
      constructor
      · intro scanned
        split at scanned
        · rename_i i found
          exact ⟨body.take i, _, find_spec found, inductionHypothesis.mp scanned⟩
        · simp at scanned
      · rintro ⟨gap, rest, rfl, tail⟩
        obtain ⟨i, before, found⟩ := find_leftmost gap middle rest
        simp only [found]
        apply inductionHypothesis.mpr
        apply tail.grow
        -- the leftmost occurrence ends no later than the one given
        have leaves : (gap ++ middle ++ rest).drop (gap.length + middle.length) = rest := by
          rw [← List.length_append, List.drop_left]
        nth_rewrite 1 [← leaves]
        exact List.drop_suffix_drop_left _ (by omega)

end Search

end AimDb.Wildcard.Glob

namespace AimDb.Wildcard

universe u v

namespace Rules

variable {P : Type u} {S : Type v} (R : Rules P S) [DecidablePred R.Spans] [DecidablePred R.Absorbs]
  [∀ p s, Decidable (R.Takes p s)]

/-- A spanning segment before whatever `next` accepts. -/
def checkSpan (next : List S → Bool) : List S → Bool
  | [] => next []
  | s :: ss => next (s :: ss) || (decide (R.Absorbs s) && checkSpan next ss)

def check : List P → List S → Bool
  | [], ss => ss.isEmpty
  | p :: ps, ss =>
      if R.Spans p then R.checkSpan (check ps) ss
      else
        match ss with
        | [] => false
        | s :: rest => decide (R.Takes p s) && check ps rest

variable {R}

omit [DecidablePred R.Spans] [∀ p s, Decidable (R.Takes p s)] in
theorem checkSpan_iff {p : P} {ps : List P} {next : List S → Bool} (spans : R.Spans p)
    (checks : ∀ ss, next ss = true ↔ R.Matches ps ss) (ss : List S) :
    R.checkSpan next ss = true ↔ R.Matches (p :: ps) ss := by
  induction ss with
  | nil => rw [checkSpan, checks, matches_span_nil_iff spans]
  | cons s ss inductionHypothesis =>
      rw [checkSpan, Bool.or_eq_true, Bool.and_eq_true, decide_eq_true_eq, checks,
        inductionHypothesis, matches_span_cons_iff spans]

theorem check_iff {ps : List P} {ss : List S} : R.check ps ss = true ↔ R.Matches ps ss := by
  induction ps generalizing ss with
  | nil => rw [check, matches_nil_iff, List.isEmpty_iff]
  | cons p ps inductionHypothesis =>
      by_cases spans : R.Spans p
      · have every : ∀ rest, R.check ps rest = true ↔ R.Matches ps rest :=
          fun rest => inductionHypothesis
        cases ss <;> simpa [check, spans] using checkSpan_iff spans every _
      · cases ss with
        | nil => simpa [check, spans] using (not_matches_take_nil spans : ¬ R.Matches (p :: ps) [])
        | cons s ss => simp [check, spans, matches_take_cons_iff spans, inductionHypothesis]

instance Matches.decidable (ps : List P) (ss : List S) : Decidable (R.Matches ps ss) :=
  decidable_of_iff (R.check ps ss = true) check_iff

end Rules

namespace Glob

variable {α : Type u} [DecidableEq α]

def fits : List (List α) → List α → Bool
  | [], _ => false
  | [piece], text => decide (text = piece)
  | piece :: next :: more, text =>
      decide (piece <+: text) && (text.drop piece.length).tails.any (fits (next :: more))

theorem fits_iff {pieces : List (List α)} {text : List α} :
    fits pieces text = true ↔ Fits pieces text := by
  induction pieces, text using Fits.induct with
  | case1 text => simp [fits, Fits]
  | case2 piece text => simp [fits, Fits]
  | case3 piece next more text inductionHypothesis =>
      rw [fits, Bool.and_eq_true, decide_eq_true_eq, List.any_eq_true, Fits]
      simp only [inductionHypothesis, List.mem_tails]
      constructor
      · rintro ⟨⟨body, rfl⟩, rest, suffix, tail⟩
        rw [List.drop_left] at suffix
        obtain ⟨gap, rfl⟩ := suffix
        exact ⟨gap, rest, by simp, tail⟩
      · rintro ⟨gap, rest, rfl, tail⟩
        refine ⟨⟨gap ++ rest, by simp⟩, rest, ⟨gap, ?_⟩, tail⟩
        rw [List.append_assoc, List.drop_left]

instance Fits.decidable (pieces : List (List α)) (text : List α) : Decidable (Fits pieces text) :=
  decidable_of_iff (fits pieces text = true) fits_iff

end Glob

end AimDb.Wildcard
