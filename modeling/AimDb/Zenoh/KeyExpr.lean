import AimDb.Wildcard.Rules
import AimDb.Zenoh.Grammar

/-!
# What Zenoh key expressions match

The meaning of a key expression is read off its chunks.  Classifying a chunk
keeps it, and so does the canonical spelling of a compiled pattern.
-/

namespace AimDb.Zenoh

open Topic Wildcard

/-- `*` takes a chunk, `**` absorbs any number of them, a chunk with a `$*` takes
what fits its pieces, and any other chunk takes itself. No wildcard passes over
a verbatim chunk. -/
def keyExpr : Rules Str Str where
  Spans c := c = ['*', '*']
  Absorbs t := startsWith '@' t = false
  Takes c t :=
    if c = ['*'] then startsWith '@' t = false
    else if '*' ∈ c then startsWith '@' t = false ∧ Glob.Fits (splitMark c) t
    else t = c

def keyChunks (key : Str) : List Str :=
  if key = [] then [] else key.splitOn '/'

def Matched (filter key : Str) : Prop :=
  keyExpr.Matches (filter.splitOn '/') (keyChunks key)

def Chunk.Takes : Chunk → Str → Prop
  | .literal text, t => t = text
  | .single _, t => startsWith '@' t = false
  | .multi _, _ => False
  | .glob pieces, t => startsWith '@' t = false ∧ Glob.Fits pieces t

/-- Compiled chunks read against a key. -/
def chunkRules : Rules Chunk Str where
  Spans c := c.isMulti = true
  Absorbs t := startsWith '@' t = false
  Takes := Chunk.Takes

theorem splitMark_cons {c : Char} (notMark : c ≠ '$') (rest : Str) :
    splitMark (c :: rest) = (splitMark rest).modifyHead (c :: ·) := by
  rw [splitMark]
  intro _ dollar
  exact absurd dollar notMark

theorem splitMark_ne_nil (text : Str) : splitMark text ≠ [] := by
  induction text using splitMark.induct with
  | case1 rest _ => simp [splitMark]
  | case2 c rest notMark inductionHypothesis =>
      rw [splitMark]
      · cases pieces : splitMark rest with
        | nil => exact absurd pieces inductionHypothesis
        | cons piece more => simp
      · exact notMark
  | case3 => simp [splitMark]

theorem join_splitMark (text : Str) : join mark (splitMark text) = text := by
  induction text using splitMark.induct with
  | case1 rest inductionHypothesis =>
      rw [splitMark]
      cases pieces : splitMark rest with
      | nil => exact absurd pieces (splitMark_ne_nil rest)
      | cons piece more =>
          rw [join, List.intercalate_cons_cons, ← pieces]
          change [] ++ mark ++ join mark (splitMark rest) = _
          rw [inductionHypothesis]
          rfl
  | case2 c rest notMark inductionHypothesis =>
      rw [splitMark]
      · cases pieces : splitMark rest with
        | nil => exact absurd pieces (splitMark_ne_nil rest)
        | cons piece more =>
            rw [pieces] at inductionHypothesis
            rw [List.modifyHead_cons, ← inductionHypothesis]
            cases more <;> simp [join]
      · exact notMark
  | case3 => rfl

theorem splitMark_append {piece : Str} (plain : '$' ∉ piece) (rest : Str) :
    splitMark (piece ++ mark ++ rest) = piece :: splitMark rest := by
  induction piece with
  | nil => rfl
  | cons c piece inductionHypothesis =>
      have notMark : c ≠ '$' := by
        rintro rfl
        exact plain (by simp)
      rw [List.cons_append, List.cons_append, splitMark_cons notMark,
        inductionHypothesis (fun inside => plain (by simp [inside]))]
      rfl

theorem splitMark_plain {piece : Str} (plain : '$' ∉ piece) : splitMark piece = [piece] := by
  induction piece with
  | nil => rfl
  | cons c piece inductionHypothesis =>
      have notMark : c ≠ '$' := by
        rintro rfl
        exact plain (by simp)
      rw [splitMark_cons notMark, inductionHypothesis (fun inside => plain (by simp [inside]))]
      rfl

theorem splitMark_join {pieces : List Str} (some : pieces ≠ [])
    (plain : ∀ piece ∈ pieces, '$' ∉ piece) : splitMark (join mark pieces) = pieces := by
  induction pieces with
  | nil => exact absurd rfl some
  | cons piece more inductionHypothesis =>
      have plainHead := plain piece (by simp)
      cases more with
      | nil =>
          rw [join, List.intercalate_singleton]
          exact splitMark_plain plainHead
      | cons next more =>
          rw [join, List.intercalate_cons_cons, splitMark_append plainHead]
          congr 1
          exact inductionHypothesis (by simp) fun other later => plain other (by simp [later])

def IsSpecial (c : Char) : Prop := c = '#' ∨ c = '?' ∨ c = '*' ∨ c = '$'

/-- The pieces of a glob: some text, no empty piece in the middle, nothing
special, and not verbatim. -/
structure GlobValid (first : Str) (middles : List Str) (last : Str) : Prop where
  nonempty : ∀ middle ∈ middles, middle ≠ []
  text : first ≠ [] ∨ middles ≠ [] ∨ last ≠ []
  plain : ∀ piece ∈ first :: (middles ++ [last]), ∀ c ∈ piece, ¬ IsSpecial c
  wild : startsWith '@' first = false

/-- The chunks `classify` makes. -/
def Chunk.Valid : Chunk → Prop
  | .literal text => text ≠ [] ∧ ∀ c ∈ text, ¬ IsSpecial c
  | .single _ => True
  | .multi _ => True
  | .glob pieces => ∃ first middles last,
      pieces = first :: (middles ++ [last]) ∧ GlobValid first middles last

theorem retainMiddles {middles : List Str} {length start : Nat} (inside : 0 < start)
    (before : start + middles.length < length) :
    ((middles.zipIdx start).filter fun (p, i) =>
      i == 0 || i == length - 1 || !p.isEmpty).map Prod.fst =
        middles.filter fun m => !m.isEmpty := by
  induction middles generalizing start with
  | nil => rfl
  | cons middle middles inductionHypothesis =>
      rw [List.length_cons] at before
      have rest := @inductionHypothesis (start + 1) (by omega) (by omega)
      have notFirst : (start == 0) = false := by simpa using inside.ne'
      have notLast : (start == length - 1) = false := by
        rw [beq_eq_false_iff_ne]
        omega
      rw [List.zipIdx_cons, List.filter_cons, List.filter_cons]
      simp only [notFirst, notLast, Bool.false_or]
      split
      · rw [List.map_cons, rest]
      · exact rest

theorem retainPieces_eq (first last : Str) (middles : List Str) :
    Chunk.retainPieces (first :: (middles ++ [last])) =
      first :: (middles.filter (fun m => !m.isEmpty) ++ [last]) := by
  rw [Chunk.retainPieces, List.zipIdx_cons, List.zipIdx_append, List.filter_cons_of_pos (by simp),
    List.filter_append, List.map_cons, List.map_append,
    retainMiddles (by omega) (by simp; omega), List.zipIdx_cons, List.filter_cons_of_pos]
  · rfl
  · simp
    omega

theorem join_cons_append (first last : Str) (middles : List Str) :
    ∃ rest, join mark (first :: (middles ++ [last])) = first ++ mark ++ rest := by
  cases middles with
  | nil => exact ⟨last, by simp [join]⟩
  | cons next middles =>
      exact ⟨join mark (next :: (middles ++ [last])), List.intercalate_cons_cons⟩

theorem mem_join {pieces : List Str} {piece : Str} {c : Char} (isPiece : piece ∈ pieces)
    (inPiece : c ∈ piece) : c ∈ join mark pieces := by
  induction pieces with
  | nil => cases isPiece
  | cons head more inductionHypothesis =>
      cases more with
      | nil =>
          obtain rfl := List.mem_singleton.mp isPiece
          simpa [join] using inPiece
      | cons next more =>
          rw [join, List.intercalate_cons_cons]
          rcases List.mem_cons.mp isPiece with rfl | later
          · simp [inPiece]
          · exact List.mem_append_right _ (inductionHypothesis later)

theorem startsWith_join (first last : Str) (middles : List Str) :
    startsWith '@' (join mark (first :: (middles ++ [last]))) = startsWith '@' first := by
  obtain ⟨rest, whole⟩ := join_cons_append first last middles
  rw [whole]
  cases first with
  | nil => rfl
  | cons c first => simp

/-- The pieces left of a chunk with a `$*`. -/
def keptPieces (first : Str) (middles : List Str) (last : Str) : List Str :=
  first :: (middles.filter (fun m => !m.isEmpty) ++ [last])

theorem classify_cases {text : Str} {chunk : Chunk} (ok : Chunk.classify text = .ok chunk) :
    (text = ['*'] ∧ chunk = .single none) ∨
    (text = ['*', '*'] ∧ chunk = .multi none) ∨
    ((text ≠ [] ∧ ∀ c ∈ text, ¬ IsSpecial c) ∧ chunk = .literal text) ∨
    (∃ first middles last, text = join mark (first :: (middles ++ [last])) ∧
      startsWith '@' first = false ∧
      (∀ piece ∈ first :: (middles ++ [last]), ∀ c ∈ piece, ¬ IsSpecial c) ∧
      chunk = if (keptPieces first middles last).all List.isEmpty then .single none
        else .glob (keptPieces first middles last)) := by
  rw [Chunk.classify] at ok
  split at ok
  · cases ok
  rename_i nonempty
  split at ok
  · exact .inl ⟨‹_›, (Except.ok.inj ok).symm⟩
  split at ok
  · exact .inr (.inl ⟨‹_›, (Except.ok.inj ok).symm⟩)
  split at ok
  · cases ok
  rename_i noHash
  have plainHash : ∀ c ∈ text, c ≠ '#' ∧ c ≠ '?' := by simpa [not_or] using noHash
  split at ok
  · rename_i noMark
    have plainMark : ∀ c ∈ text, c ≠ '*' ∧ c ≠ '$' := by simpa [not_or] using noMark
    refine .inr (.inr (.inl ⟨⟨nonempty, ?_⟩, (Except.ok.inj ok).symm⟩))
    intro c inText
    simp [IsSpecial, plainHash c inText, plainMark c inText]
  rename_i marked
  split at ok
  · cases ok
  rename_i wild
  simp only at ok
  split at ok
  · cases ok
  rename_i noDollar
  split at ok
  · cases ok
  rename_i noStar
  have whole := join_splitMark text
  have plain : ∀ piece ∈ splitMark text, ∀ c ∈ piece, ¬ IsSpecial c := by
    intro piece isPiece c inPiece
    have inText : c ∈ text := whole ▸ mem_join isPiece inPiece
    rintro (rfl | rfl | rfl | rfl)
    · exact (plainHash '#' inText).1 rfl
    · exact (plainHash '?' inText).2 rfl
    · exact noStar (List.any_eq_true.mpr ⟨piece, isPiece, by simpa using inPiece⟩)
    · exact noDollar (List.any_eq_true.mpr ⟨piece, isPiece, by simpa using inPiece⟩)
  cases pieces : splitMark text with
  | nil => exact absurd pieces (splitMark_ne_nil text)
  | cons first more =>
      rw [pieces] at whole plain ok
      rcases List.eq_nil_or_concat' more with rfl | ⟨middles, last, rfl⟩
      · -- a single piece is the whole text, which holds a mark
        obtain rfl : first = text := by simpa [join] using whole
        obtain ⟨c, inText, special⟩ := List.any_eq_true.mp
          (by simpa only [Bool.not_eq_true', Bool.not_eq_false] using marked)
        apply absurd _ (plain first (by simp) c inText)
        rcases Bool.or_eq_true_iff.mp special with star | dollar
        · exact .inr (.inr (.inl (by simpa using star)))
        · exact .inr (.inr (.inr (by simpa using dollar)))
      · rw [retainPieces_eq] at ok
        refine .inr (.inr (.inr ⟨first, middles, last, whole.symm, ?_, plain, ?_⟩))
        · rw [← startsWith_join first last middles, whole]
          simpa using wild
        · change (if (keptPieces first middles last).all List.isEmpty = true then
            Except.ok (Chunk.single none)
            else Except.ok (Chunk.glob (keptPieces first middles last))) = _ at ok
          by_cases empty : (keptPieces first middles last).all List.isEmpty = true
          · rw [if_pos empty] at ok ⊢
            exact (Except.ok.inj ok).symm
          · rw [if_neg empty] at ok ⊢
            exact (Except.ok.inj ok).symm

theorem keptPieces_plain {first last : Str} {middles : List Str}
    (plain : ∀ piece ∈ first :: (middles ++ [last]), ∀ c ∈ piece, ¬ IsSpecial c) :
    ∀ piece ∈ keptPieces first middles last, ∀ c ∈ piece, ¬ IsSpecial c := by
  intro piece isKept
  apply plain
  simp only [keptPieces, List.mem_cons, List.mem_append, List.mem_filter] at isKept ⊢
  tauto

theorem classify_valid {text : Str} {chunk : Chunk} (ok : Chunk.classify text = .ok chunk) :
    chunk.Valid := by
  rcases classify_cases ok with ⟨-, rfl⟩ | ⟨-, rfl⟩ | ⟨plain, rfl⟩ |
    ⟨first, middles, last, -, wild, plain, rfl⟩
  · trivial
  · trivial
  · exact plain
  · split
    · trivial
    · rename_i some
      refine ⟨first, _, last, rfl, ?_, ?_, keptPieces_plain plain, wild⟩
      · intro middle kept
        simpa using (List.mem_filter.mp kept).2
      · by_contra none
        simp only [not_or, not_not] at none
        obtain ⟨rfl, empty, rfl⟩ := none
        exact some (by simp [keptPieces, empty])

theorem fits_keptPieces_iff {first last : Str} {middles : List Str} {t : Str} :
    Glob.Fits (keptPieces first middles last) t ↔
      Glob.Fits (first :: (middles ++ [last])) t := by
  simp only [keptPieces, Glob.fits_iff_scans, Glob.scans_filter_iff]

theorem fits_of_empty {first last : Str} {middles : List Str}
    (empty : (keptPieces first middles last).all List.isEmpty = true) (t : Str) :
    Glob.Fits (first :: (middles ++ [last])) t := by
  rw [← fits_keptPieces_iff]
  have gone : ∀ piece ∈ keptPieces first middles last, piece = [] :=
    fun piece isKept => List.isEmpty_iff.mp (List.all_eq_true.mp empty piece isKept)
  have none : middles.filter (fun m => !m.isEmpty) = [] := by
    rw [List.eq_nil_iff_forall_not_mem]
    intro middle kept
    have text := (List.mem_filter.mp kept).2
    rw [gone middle (by simp [keptPieces, kept])] at text
    cases text
  have firstEmpty : first = [] := gone first (by simp [keptPieces])
  have lastEmpty : last = [] := gone last (by simp [keptPieces])
  rw [keptPieces, none, firstEmpty, lastEmpty]
  exact ⟨t, [], by simp, rfl⟩

theorem star_mem_join (first last : Str) (middles : List Str) :
    '*' ∈ join mark (first :: (middles ++ [last])) := by
  obtain ⟨rest, whole⟩ := join_cons_append first last middles
  rw [whole]
  simp [mark]

theorem dollar_mem_join (first last : Str) (middles : List Str) :
    '$' ∈ join mark (first :: (middles ++ [last])) := by
  obtain ⟨rest, whole⟩ := join_cons_append first last middles
  rw [whole]
  simp [mark]

theorem takes_join_iff {first last : Str} {middles : List Str}
    (plain : ∀ piece ∈ first :: (middles ++ [last]), ∀ c ∈ piece, ¬ IsSpecial c)
    (t : Str) :
    keyExpr.Takes (join mark (first :: (middles ++ [last]))) t ↔
      startsWith '@' t = false ∧ Glob.Fits (first :: (middles ++ [last])) t := by
  have notStar : join mark (first :: (middles ++ [last])) ≠ ['*'] := by
    intro star
    have dollar := dollar_mem_join first last middles
    rw [star] at dollar
    simp at dollar
  have pieces : splitMark (join mark (first :: (middles ++ [last]))) =
      first :: (middles ++ [last]) := by
    apply splitMark_join (by simp)
    exact fun piece isPiece dollar => plain piece isPiece '$' dollar (.inr (.inr (.inr rfl)))
  simp only [keyExpr, if_neg notStar, if_pos (star_mem_join first last middles), pieces]

theorem not_spans_join (first last : Str) (middles : List Str) :
    ¬ keyExpr.Spans (join mark (first :: (middles ++ [last]))) := by
  intro multi
  have dollar := dollar_mem_join first last middles
  rw [show join mark _ = ['*', '*'] from multi] at dollar
  simp at dollar

theorem alike_literal {text : Str} (plain : ∀ c ∈ text, ¬ IsSpecial c) :
    Rules.Alike keyExpr chunkRules text (.literal text) := by
  have noStar : '*' ∉ text := fun inside => plain '*' inside (.inr (.inr (.inl rfl)))
  constructor
  · constructor
    · intro multi
      rw [show text = ['*', '*'] from multi] at noStar
      simp at noStar
    · exact fun spans => by cases spans
  · intro _ t
    have notSingle : text ≠ ['*'] := by
      rintro rfl
      simp at noStar
    simp only [keyExpr, if_neg notSingle, if_neg noStar]
    rfl

theorem classify_alike {text : Str} {chunk : Chunk} (ok : Chunk.classify text = .ok chunk) :
    Rules.Alike keyExpr chunkRules text chunk := by
  rcases classify_cases ok with ⟨rfl, rfl⟩ | ⟨rfl, rfl⟩ | ⟨⟨-, plain⟩, rfl⟩ |
    ⟨first, middles, last, rfl, wild, plain, rfl⟩
  · exact ⟨by simp [keyExpr, chunkRules, Chunk.isMulti], fun _ t => by simp [keyExpr]; rfl⟩
  · exact ⟨by simp [keyExpr, chunkRules, Chunk.isMulti], fun single => absurd rfl single⟩
  · exact alike_literal plain
  · refine ⟨iff_of_false (not_spans_join first last middles) ?_, fun _ t => ?_⟩
    · split <;> exact fun spans => by cases spans
    · rw [takes_join_iff plain]
      split
      · rename_i empty
        exact and_iff_left (fits_of_empty empty t)
      · rw [← fits_keptPieces_iff]
        rfl

end AimDb.Zenoh
