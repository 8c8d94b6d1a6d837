import Mathlib.Data.List.Basic
import Mathlib.Data.List.Chain
import Mathlib.Data.List.Forall2
import Mathlib.Data.List.Infix
import Mathlib.Tactic.Common

/-!
# Alignments of a wildcard pattern with a subject

A pattern is a list of segments.  Some of them *span*: they absorb any number
of subject segments.  Every other one stands for exactly one subject segment
and says which ones it covers.  An alignment is a left-to-right decomposition
of the subject into what the pattern segments absorb and cover.

The alphabet of both sides is arbitrary, so the same theory reads a pattern
over a concrete subject and over another pattern.
-/

namespace AimDb.Wildcard

universe u v w

/-- What a single pattern segment does: span, or cover one subject segment. -/
structure Grammar (P : Type u) (S : Type v) where
  spans : P → Bool
  covers : P → S → Bool

namespace Grammar

variable {P : Type u} {Q : Type v} {S : Type w}

/-- The pattern decomposes the whole subject. -/
inductive Aligns (G : Grammar P S) : List P → List S → Prop where
  | nil : Aligns G [] []
  | skip {p ps ss} : G.spans p = true → Aligns G ps ss → Aligns G (p :: ps) ss
  | absorb {p ps s ss} : G.spans p = true → Aligns G (p :: ps) ss →
      Aligns G (p :: ps) (s :: ss)
  | cover {p ps s ss} : G.spans p = false → G.covers p s = true → Aligns G ps ss →
      Aligns G (p :: ps) (s :: ss)

variable {G : Grammar P S}

@[simp]
theorem aligns_nil_iff {ss : List S} : G.Aligns [] ss ↔ ss = [] := by
  constructor
  · intro aligned
    cases aligned
    rfl
  · rintro rfl
    exact .nil

theorem aligns_empty_iff {ps : List P} :
    G.Aligns ps [] ↔ ∀ p ∈ ps, G.spans p = true := by
  induction ps with
  | nil => simp
  | cons p ps ih =>
    constructor
    · intro aligned
      cases aligned with
      | skip spanning tail => simpa [spanning] using ih.mp tail
    · intro spanning
      exact .skip (spanning p (by simp)) (ih.mpr fun q hq => spanning q (by simp [hq]))

theorem Aligns.grow {p : P} {ps : List P} {short long : List S}
    (spanning : G.spans p = true) (aligned : G.Aligns (p :: ps) short)
    (suffix : short <:+ long) : G.Aligns (p :: ps) long := by
  obtain ⟨absorbed, rfl⟩ := suffix
  induction absorbed with
  | nil => exact aligned
  | cons s absorbed ih => exact .absorb spanning ih

/-- A spanning segment leaves some suffix of the subject to its continuation. -/
theorem aligns_span_iff {p : P} {ps : List P} {ss : List S} (spanning : G.spans p = true) :
    G.Aligns (p :: ps) ss ↔ ∃ rest, rest <:+ ss ∧ G.Aligns ps rest := by
  constructor
  · intro aligned
    induction ss with
    | nil =>
      cases aligned with
      | skip _ tail => exact ⟨[], List.suffix_refl _, tail⟩
    | cons s ss ih =>
      cases aligned with
      | skip _ tail => exact ⟨s :: ss, List.suffix_refl _, tail⟩
      | absorb _ tail =>
        obtain ⟨rest, suffix, restAligned⟩ := ih tail
        exact ⟨rest, suffix.trans (List.suffix_cons s ss), restAligned⟩
      | cover literal _ _ => simp [spanning] at literal
  · rintro ⟨rest, suffix, restAligned⟩
    exact (Aligns.skip spanning restAligned).grow spanning suffix

theorem aligns_cover_iff {p : P} {ps : List P} {ss : List S} (single : G.spans p = false) :
    G.Aligns (p :: ps) ss ↔
      ∃ s rest, ss = s :: rest ∧ G.covers p s = true ∧ G.Aligns ps rest := by
  constructor
  · intro aligned
    cases aligned with
    | skip spanning _ => simp [single] at spanning
    | absorb spanning _ => simp [single] at spanning
    | cover _ covered tail => exact ⟨_, _, rfl, covered, tail⟩
  · rintro ⟨s, rest, rfl, covered, tail⟩
    exact .cover single covered tail

theorem Aligns.drop_singles {front back : List P} {ss : List S}
    (singles : ∀ p ∈ front, G.spans p = false) (aligned : G.Aligns (front ++ back) ss) :
    front.length ≤ ss.length ∧ G.Aligns back (ss.drop front.length) := by
  induction front generalizing ss with
  | nil => exact ⟨Nat.zero_le _, aligned⟩
  | cons p front ih =>
    have single := singles p (by simp)
    obtain ⟨s, rest, rfl, -, tail⟩ := (aligns_cover_iff single).mp aligned
    obtain ⟨long, restAligned⟩ := ih (fun q hq => singles q (by simp [hq])) tail
    exact ⟨by simpa using long, by simpa using restAligned⟩

/-- Only the most recent spanning segment ever has to grow: whatever an earlier
one could reach by absorbing more, the later one reaches from where it stands. -/
theorem Aligns.grow_later {first later : P} {front back : List P} {ss grown : List S}
    (firstSpans : G.spans first = true) (laterSpans : G.spans later = true)
    (singles : ∀ p ∈ front, G.spans p = false)
    (aligned : G.Aligns (first :: (front ++ later :: back)) grown) (suffix : grown <:+ ss) :
    G.Aligns (later :: back) (ss.drop front.length) := by
  obtain ⟨rest, restSuffix, restAligned⟩ := (aligns_span_iff firstSpans).mp aligned
  obtain ⟨-, tailAligned⟩ := restAligned.drop_singles singles
  obtain ⟨absorbed, rfl⟩ := restSuffix.trans suffix
  refine tailAligned.grow laterSpans ?_
  have inWhole := (List.drop_suffix front.length rest).trans (List.suffix_append absorbed rest)
  refine List.suffix_of_suffix_length_le inWhole (List.drop_suffix _ _) ?_
  · simp only [List.length_drop, List.length_append]
    omega

/-- Alignments compose: if the outer pattern decomposes the inner one, and what
it covers there stands for single segments it also covers, it decomposes every
subject of the inner pattern. -/
theorem Aligns.comp {A : Grammar P Q} {B : Grammar Q S} {C : Grammar P S}
    (sameSpans : ∀ p, C.spans p = A.spans p)
    (covered : ∀ p q, A.spans p = false → A.covers p q = true →
      B.spans q = false ∧ ∀ s, B.covers q s = true → C.covers p s = true)
    {ps : List P} {qs : List Q} {ss : List S}
    (first : A.Aligns ps qs) (second : B.Aligns qs ss) : C.Aligns ps ss := by
  induction first generalizing ss with
  | nil => simpa using second
  | skip spanning _ ih => exact .skip (by rw [sameSpans, spanning]) (ih second)
  | @absorb p ps q qs spanning _ ih =>
    have wholeSpans : C.spans p = true := by rw [sameSpans, spanning]
    cases kind : B.spans q with
    | true =>
      -- the inner segment spans as well: the outer one takes its whole expansion
      obtain ⟨rest, suffix, tail⟩ := (aligns_span_iff kind).mp second
      exact (ih tail).grow wholeSpans suffix
    | false =>
      obtain ⟨s, rest, rfl, -, tail⟩ := (aligns_cover_iff kind).mp second
      exact .absorb wholeSpans (ih tail)
  | cover single covers _ ih =>
    obtain ⟨innerSingle, transfer⟩ := covered _ _ single covers
    obtain ⟨s, rest, rfl, innerCovers, tail⟩ := (aligns_cover_iff innerSingle).mp second
    exact .cover (by rw [sameSpans, single]) (transfer s innerCovers) (ih tail)

section Sampling

variable (spansInner : Q → Bool) (sample : Q → S) (fresh : S) (n : ℕ)

/-- One subject of the inner pattern: every single segment becomes its sample,
every spanning one a run of `n` fresh segments. -/
def expand (qs : List Q) : List S :=
  qs.flatMap fun q => if spansInner q then List.replicate n fresh else [sample q]

/-- A segment that stands for one segment but covers the fresh one. -/
def Wild (G : Grammar P S) (fresh : S) (p : P) : Prop :=
  G.spans p = false ∧ G.covers p fresh = true

/-- Neighbours that are not a wild segment beside a spanning one. -/
def Apart (G : Grammar P S) (fresh : S) (a b : P) : Prop :=
  ¬ (G.Wild fresh a ∧ G.spans b = true) ∧ ¬ (G.spans a = true ∧ G.Wild fresh b)

/-- Wild segments with no spanning neighbour cannot consume a run longer than
the pattern. -/
theorem not_wild_of_long_run {p : P} {ps : List P} {m : ℕ} {rest : List S}
    (chain : (p :: ps).IsChain (G.Apart fresh)) (long : (p :: ps).length < m)
    (aligned : G.Aligns (p :: ps) (List.replicate m fresh ++ rest)) : G.spans p = true := by
  induction ps generalizing p m with
  | nil =>
    cases kind : G.spans p with
    | true => rfl
    | false =>
      obtain ⟨s, tail, split, -, tailAligned⟩ := (aligns_cover_iff kind).mp aligned
      obtain _ | _ | m := m <;> simp [List.replicate_succ] at long split
      simp [← split.2] at tailAligned
  | cons next ps ih =>
    cases kind : G.spans p with
    | true => rfl
    | false =>
      obtain ⟨s, tail, split, covered, tailAligned⟩ := (aligns_cover_iff kind).mp aligned
      obtain _ | m := m
      · simp at long
      simp only [List.replicate_succ, List.cons_append, List.cons.injEq] at split
      obtain ⟨rfl, rfl⟩ := split
      have nextSpans := ih (List.isChain_cons_cons.mp chain).2 (by simpa using long) tailAligned
      exact absurd ⟨⟨kind, covered⟩, nextSpans⟩ (List.isChain_cons_cons.mp chain).1.1

theorem suffix_replicate_append {m : ℕ} {short rest : List S}
    (suffix : short <:+ List.replicate m fresh ++ rest) :
    short <:+ rest ∨ ∃ k, short = List.replicate (k + 1) fresh ++ rest := by
  induction m with
  | zero => exact .inl (by simpa using suffix)
  | succ m ih =>
    rw [List.replicate_succ, List.cons_append, List.suffix_cons_iff] at suffix
    rcases suffix with rfl | suffix
    · exact .inr ⟨m, rfl⟩
    · exact ih suffix

/-- A pattern that starts spanning absorbs a leading run of fresh segments in
spanning segments only, so it aligns without the run. -/
theorem Aligns.forget_run {p : P} {ps : List P} {m : ℕ} {rest : List S}
    (chain : (p :: ps).IsChain (G.Apart fresh)) (spanning : G.spans p = true)
    (aligned : G.Aligns (p :: ps) (List.replicate m fresh ++ rest)) :
    G.Aligns (p :: ps) rest := by
  induction ps generalizing p m with
  | nil =>
    obtain ⟨tail, -, tailAligned⟩ := (aligns_span_iff spanning).mp aligned
    obtain rfl := aligns_nil_iff.mp tailAligned
    exact (Aligns.skip spanning .nil).grow spanning List.nil_suffix
  | cons next ps ih =>
    obtain ⟨tail, suffix, tailAligned⟩ := (aligns_span_iff spanning).mp aligned
    rcases suffix_replicate_append fresh suffix with inRest | ⟨k, rfl⟩
    · exact (Aligns.skip spanning tailAligned).grow spanning inRest
    -- part of the run is left to the next segment, which must span as well
    obtain ⟨apart, restChain⟩ := List.isChain_cons_cons.mp chain
    have nextSpans : G.spans next = true := by
      cases kind : G.spans next with
      | true => rfl
      | false =>
        obtain ⟨s, _, split, covered, -⟩ := (aligns_cover_iff kind).mp tailAligned
        simp only [List.replicate_succ, List.cons_append, List.cons.injEq] at split
        obtain ⟨rfl, -⟩ := split
        exact absurd ⟨spanning, kind, covered⟩ apart.2
    exact .skip spanning (ih restChain nextSpans tailAligned)

/-- Completeness by sampling.  If a pattern decomposes one long sample of the
inner pattern, it decomposes the inner pattern itself, provided that the inner
pattern never spans or that the outer one keeps its wild and its spanning
segments apart. -/
theorem aligns_of_aligns_expand {A : Grammar P Q} {C : Grammar P S}
    (sameSpans : ∀ p, C.spans p = A.spans p)
    {ps : List P} {qs : List Q}
    (lift : ∀ p ∈ ps, ∀ q, A.spans p = false → spansInner q = false →
      C.covers p (sample q) = true → A.covers p q = true)
    (bounded : ps.length < n)
    (exact_ : (∀ q ∈ qs, spansInner q = false) ∨ ps.IsChain (C.Apart fresh))
    (aligned : C.Aligns ps (expand spansInner sample fresh n qs)) : A.Aligns ps qs := by
  induction qs generalizing ps with
  | nil =>
    refine aligns_empty_iff.mpr fun p hp => ?_
    rw [← sameSpans]
    exact aligns_empty_iff.mp aligned p hp
  | cons q qs ih =>
    have tailExact {ps : List P} (h : (∀ r ∈ q :: qs, spansInner r = false) ∨
        ps.IsChain (C.Apart fresh)) :
        (∀ r ∈ qs, spansInner r = false) ∨ ps.IsChain (C.Apart fresh) :=
      h.imp_left fun none r hr => none r (by simp [hr])
    cases kind : spansInner q with
    | true =>
      have chain : ps.IsChain (C.Apart fresh) := by
        rcases exact_ with none | chain
        · simp [none q (by simp)] at kind
        · exact chain
      have run : expand spansInner sample fresh n (q :: qs) =
          List.replicate n fresh ++ expand spansInner sample fresh n qs := by
        simp [expand, kind]
      rw [run] at aligned
      cases ps with
      | nil =>
        obtain _ | n := n
        · simp at bounded
        · simp [List.replicate_succ] at aligned
      | cons p ps =>
        have spanning := not_wild_of_long_run fresh chain bounded aligned
        have withoutRun := aligned.forget_run fresh chain spanning
        exact .absorb (by rw [← sameSpans, spanning]) (ih lift bounded (.inr chain) withoutRun)
    | false =>
      have head : expand spansInner sample fresh n (q :: qs) =
          sample q :: expand spansInner sample fresh n qs := by
        simp [expand, kind]
      rw [head] at aligned
      induction ps with
      | nil => simp at aligned
      | cons p ps ihPattern =>
        have shorter : ps.length < n := by simp at bounded; omega
        have tailChain : (∀ r ∈ q :: qs, spansInner r = false) ∨
            ps.IsChain (C.Apart fresh) := exact_.imp_right List.IsChain.tail
        have tailLift := fun r (hr : r ∈ ps) => lift r (by simp [hr])
        cases aligned with
        | skip spanning tail =>
          exact .skip (by rw [← sameSpans, spanning]) (ihPattern tailLift shorter tailChain tail)
        | absorb spanning tail =>
          exact .absorb (by rw [← sameSpans, spanning]) (ih lift bounded (tailExact exact_) tail)
        | cover single covered tail =>
          have outerSingle : A.spans p = false := by rw [← sameSpans, single]
          exact .cover outerSingle (lift p (by simp) q outerSingle kind covered)
            (ih tailLift shorter (tailExact tailChain) tail)

theorem aligns_expand {B : Grammar Q S}
    (own : ∀ q, B.spans q = false → B.covers q (sample q) = true) (qs : List Q) :
    B.Aligns qs (expand B.spans sample fresh n qs) := by
  induction qs with
  | nil => exact .nil
  | cons q qs ih =>
    cases kind : B.spans q with
    | true =>
      simp only [expand, List.flatMap_cons, kind, if_true]
      exact (Aligns.skip kind ih).grow kind (List.suffix_append _ _)
    | false =>
      simp only [expand, List.flatMap_cons, kind, Bool.false_eq_true, if_false]
      exact .cover kind (own q kind) ih

end Sampling

end Grammar

end AimDb.Wildcard

namespace AimDb.Wildcard.Grammar

universe u v

variable {P : Type u} {S : Type v} (G : Grammar P S)

/-- The parts of the subject one pattern segment can stand for. -/
def Fills (p : P) (part : List S) : Prop :=
  G.spans p = true ∨ ∃ s, part = [s] ∧ G.covers p s = true

variable {G}

theorem Aligns.of_fills {ps : List P} {parts : List (List S)}
    (filled : List.Forall₂ G.Fills ps parts) : G.Aligns ps parts.flatten := by
  induction filled with
  | nil => exact .nil
  | @cons p part ps parts fills _ inductionHypothesis =>
      rw [List.flatten_cons]
      cases kind : G.spans p with
      | true =>
          exact (Aligns.skip kind inductionHypothesis).grow kind (List.suffix_append part _)
      | false =>
          obtain spans | ⟨s, rfl, covered⟩ := fills
          · rw [kind] at spans
            cases spans
          · exact .cover kind covered inductionHypothesis

theorem Aligns.fills {ps : List P} {ss : List S} (aligned : G.Aligns ps ss) :
    ∃ parts : List (List S), parts.flatten = ss ∧ List.Forall₂ G.Fills ps parts := by
  induction aligned with
  | nil => exact ⟨[], rfl, .nil⟩
  | skip spans _ inductionHypothesis =>
      obtain ⟨parts, rfl, filled⟩ := inductionHypothesis
      exact ⟨[] :: parts, rfl, .cons (.inl spans) filled⟩
  | @absorb p ps s ss spans _ inductionHypothesis =>
      obtain ⟨parts, flat, filled⟩ := inductionHypothesis
      cases filled with
      | @cons _ part _ parts _ rest =>
          refine ⟨(s :: part) :: parts, ?_, .cons (.inl spans) rest⟩
          rw [← flat]
          rfl
  | @cover p ps s ss _ covered _ inductionHypothesis =>
      obtain ⟨parts, rfl, filled⟩ := inductionHypothesis
      exact ⟨[s] :: parts, rfl, .cons (.inr ⟨s, rfl, covered⟩) filled⟩

theorem aligns_iff_fills {ps : List P} {ss : List S} :
    G.Aligns ps ss ↔
      ∃ parts : List (List S), parts.flatten = ss ∧ List.Forall₂ G.Fills ps parts := by
  constructor
  · exact Aligns.fills
  · rintro ⟨parts, rfl, filled⟩
    exact .of_fills filled

/-- Try every suffix of the subject as what a spanning segment leaves over. -/
def search (G : Grammar P S) : List P → List S → Bool
  | [], ss => ss.isEmpty
  | p :: ps, ss =>
      if G.spans p then ss.tails.any (search G ps)
      else
        match ss with
        | [] => false
        | s :: rest => G.covers p s && search G ps rest

theorem search_spans {p : P} {ps : List P} {ss : List S} (spans : G.spans p = true) :
    G.search (p :: ps) ss = ss.tails.any (G.search ps) := by
  cases ss <;> rw [search, if_pos spans]

theorem search_eq_true_iff {ps : List P} {ss : List S} :
    G.search ps ss = true ↔ G.Aligns ps ss := by
  induction ps generalizing ss with
  | nil => rw [search, aligns_nil_iff, List.isEmpty_iff]
  | cons p ps inductionHypothesis =>
      cases kind : G.spans p with
      | true =>
          rw [search_spans kind, List.any_eq_true, aligns_span_iff kind]
          exact exists_congr fun rest => and_congr (List.mem_tails rest ss) inductionHypothesis
      | false =>
          rw [aligns_cover_iff kind]
          cases ss with
          | nil => simp [search, kind]
          | cons s rest =>
              rw [search, if_neg (by simp [kind]), Bool.and_eq_true, inductionHypothesis]
              constructor
              · rintro ⟨covered, aligned⟩
                exact ⟨s, rest, rfl, covered, aligned⟩
              · rintro ⟨_, _, same, covered, aligned⟩
                obtain ⟨rfl, rfl⟩ := List.cons.inj same
                exact ⟨covered, aligned⟩

end AimDb.Wildcard.Grammar
