import AimDb.Zenoh.Canonical

/-!
# Covering of key expressions

The inclusion test is a match of chunks against chunks, so it composes with
itself and with matching a key.
-/

namespace AimDb.Zenoh

open Topic Wildcard

/-- Stripping the outer pieces and searching for the others decides whether a
text fits. -/
theorem globMatches_iff {first last : Str} {middles : List Str} {text : Str} :
    globMatches (first :: (middles ++ [last])) text = true ↔
      Glob.Fits (first :: (middles ++ [last])) text := by
  have lastPiece : (first :: (middles ++ [last])).getLastD first = last := by
    rw [← List.cons_append, List.getLastD_concat]
  rw [Glob.fits_iff_scans, globMatches, lastPiece, List.dropLast_concat]
  constructor
  · intro matched
    split at matched
    · cases matched
    · rename_i behind stripped
      split at matched
      · cases matched
      · rename_i body strippedLast
        have front := List.append_eq_of_isPrefixOf?_eq_some stripped
        have back := List.append_eq_of_isSuffixOf?_eq_some strippedLast
        exact ⟨body, by rw [← front, ← back, List.append_assoc], Glob.scan_iff.mp matched⟩
  · rintro ⟨body, rfl, scans⟩
    have stripped : first.isPrefixOf? (first ++ body ++ last) = some (body ++ last) := by simp
    have strippedLast : last.isSuffixOf? (body ++ last) = some body := by simp
    simp only [stripped, strippedLast]
    exact Glob.scan_iff.mpr scans

theorem GlobValid.unmarked {first last : Str} {middles : List Str}
    (valid : GlobValid first middles last) :
    ∀ piece ∈ first :: (middles ++ [last]), ∀ c ∈ piece, c ∉ mark := by
  intro piece isPiece c inPiece inMark
  apply valid.plain piece isPiece c inPiece
  simp only [mark, List.mem_cons, List.not_mem_nil, or_false] at inMark
  rcases inMark with rfl | rfl
  · exact .inr (.inr (.inr rfl))
  · exact .inr (.inr (.inl rfl))

theorem eq_of_includes_verbatim {x y : Chunk} (verbatim : isVerbatim y = true)
    (included : chunkIncludes x y = true) : x = y := by
  unfold chunkIncludes at included
  rw [if_pos verbatim] at included
  exact beq_iff_eq.mp included

theorem Chunk.Takes.plain {y : Chunk} {t : Str} (notVerbatim : isVerbatim y = false)
    (takes : y.Takes t) : startsWith '@' t = false := by
  cases y with
  | literal text =>
      obtain rfl : t = text := takes
      exact notVerbatim
  | single capture => exact takes
  | multi capture => cases takes
  | glob pieces => exact takes.1

theorem includes_plain {y z : Chunk} (notVerbatim : isVerbatim y = false)
    (included : chunkIncludes y z = true) : isVerbatim z = false := by
  rw [Bool.eq_false_iff]
  intro verbatim
  rw [eq_of_includes_verbatim verbatim included, verbatim] at notVerbatim
  cases notVerbatim

theorem Chunk.Takes.of_includes {x y : Chunk} {t : Str} (validX : x.Valid) (validY : y.Valid)
    (included : chunkIncludes x y = true) (takes : y.Takes t) : x.Takes t := by
  by_cases verbatim : isVerbatim y = true
  · rwa [eq_of_includes_verbatim verbatim included]
  have plain : startsWith '@' t = false := takes.plain (Bool.eq_false_iff.mpr verbatim)
  unfold chunkIncludes at included
  rw [if_neg verbatim] at included
  cases x with
  | literal text =>
      cases y with
      | literal other =>
          obtain rfl : text = other := by simpa using included
          exact takes
      | single capture => cases included
      | multi capture => cases included
      | glob pieces => cases included
  | single capture => exact plain
  | multi capture => cases included
  | glob pieces =>
      obtain ⟨first, middles, last, rfl, globX⟩ := validX
      cases y with
      | literal text =>
          obtain rfl : t = text := takes
          exact ⟨plain, globMatches_iff.mp included⟩
      | single capture => cases included
      | multi capture => cases included
      | glob others =>
          refine ⟨plain, ?_⟩
          exact (globMatches_iff.mp included).comp (by simp [mark]) globX.unmarked takes.2

/-- A glob that fits the spelling of another one fits what the other fits. -/
theorem globMatches_trans {first last : Str} {middles : List Str} {others : List Str} {text : Str}
    (valid : GlobValid first middles last) (validOther : (Chunk.glob others).Valid)
    (above : globMatches (first :: (middles ++ [last])) (join mark others) = true)
    (below : globMatches others text = true) :
    globMatches (first :: (middles ++ [last])) text = true := by
  obtain ⟨otherFirst, otherMiddles, otherLast, rfl, -⟩ := validOther
  rw [globMatches_iff] at above below ⊢
  exact above.comp (by simp [mark]) valid.unmarked below

theorem chunkIncludes_trans {x y z : Chunk} (validX : x.Valid) (validY : y.Valid)
    (first : chunkIncludes x y = true) (second : chunkIncludes y z = true) :
    chunkIncludes x z = true := by
  by_cases verbatimZ : isVerbatim z = true
  · rwa [← eq_of_includes_verbatim verbatimZ second]
  by_cases verbatimY : isVerbatim y = true
  · rwa [eq_of_includes_verbatim verbatimY first]
  unfold chunkIncludes at first second ⊢
  rw [if_neg verbatimY] at first
  rw [if_neg verbatimZ] at second ⊢
  cases x with
  | single capture => rfl
  | multi capture => cases first
  | literal text =>
      cases y with
      | literal other =>
          obtain rfl : text = other := by simpa using first
          exact second
      | single capture => cases first
      | multi capture => cases first
      | glob pieces => cases first
  | glob pieces =>
      obtain ⟨firstPiece, middles, last, rfl, globX⟩ := validX
      cases y with
      | literal text =>
          cases z with
          | literal other =>
              obtain rfl : text = other := by simpa using second
              exact first
          | single capture => cases second
          | multi capture => cases second
          | glob others => cases second
      | single capture => cases first
      | multi capture => cases first
      | glob others =>
          cases z with
          | literal text => exact globMatches_trans globX validY first second
          | single capture => cases second
          | multi capture => cases second
          | glob inner => exact globMatches_trans globX validY first second

theorem chunkIncludes_refl {x : Chunk} (valid : x.Valid) (single : x.isMulti = false) :
    chunkIncludes x x = true := by
  unfold chunkIncludes
  split
  · exact beq_self_eq_true x
  · cases x with
    | literal text => exact beq_self_eq_true text
    | single capture => rfl
    | multi capture => cases single
    | glob pieces =>
        obtain ⟨first, middles, last, rfl, -⟩ := valid
        exact globMatches_iff.mpr (Glob.fits_intercalate mark (by simp))

/-- Compiled chunks read against compiled chunks. -/
def inclusion : Rules Chunk Chunk where
  Spans x := x.isMulti = true
  Absorbs y := isVerbatim y = false
  Takes x y := x.Valid ∧ y.Valid ∧ y.isMulti = false ∧ chunkIncludes x y = true

theorem inclusion_composes_chunkRules : Rules.Composes inclusion chunkRules chunkRules where
  spans _ := Iff.rfl
  single := by
    rintro x y ⟨-, -, single, -⟩ multi
    rw [show y.isMulti = true from multi] at single
    cases single
  takes := by
    rintro x y t ⟨validX, validY, -, included⟩ takes
    exact Chunk.Takes.of_includes validX validY included takes
  absorbs_taken y t notVerbatim _ takes := Chunk.Takes.plain notVerbatim takes
  absorbs_run _ _ _ _ plain := plain

theorem inclusion_composes : Rules.Composes inclusion inclusion inclusion where
  spans _ := Iff.rfl
  single := by
    rintro x y ⟨-, -, single, -⟩ multi
    rw [show y.isMulti = true from multi] at single
    cases single
  takes := by
    rintro x y z ⟨validX, validY, -, first⟩ ⟨-, validZ, single, second⟩
    exact ⟨validX, validZ, single, chunkIncludes_trans validX validY first second⟩
  absorbs_taken := by
    rintro y z notVerbatim - ⟨-, -, -, included⟩
    exact includes_plain notVerbatim included
  absorbs_run _ _ _ _ notVerbatim := notVerbatim

theorem isMulti_eq_false {x : Chunk} (single : ∀ capture, x ≠ .multi capture) :
    x.isMulti = false := by
  cases x with
  | multi capture => exact absurd rfl (single capture)
  | _ => rfl

theorem includes_iff {a b : List Chunk} (validA : ∀ x ∈ a, x.Valid)
    (validB : ∀ y ∈ b, y.Valid) :
    includes a b = true ↔ inclusion.Matches a b := by
  induction a, b using includes.induct with
  | case1 => simp [includes]
  | case2 capture a b skipped absorbed =>
      have spans : inclusion.Spans (.multi capture) := rfl
      have skips := skipped (fun x later => validA x (by simp [later])) validB
      cases b with
      | nil => rw [includes, Bool.or_false, Rules.matches_span_nil_iff spans, skips]
      | cons first rest =>
          have absorbs := absorbed validA fun y later => validB y (by simp [later])
          rw [includes, Bool.or_eq_true, Bool.and_eq_true, Rules.matches_span_cons_iff spans,
            skips, absorbs, Bool.not_eq_true']
          rfl
  | case3 y b => simp [includes]
  | case4 x a single =>
      have notSpans : ¬ inclusion.Spans x := Bool.eq_false_iff.mp (isMulti_eq_false single)
      exact iff_of_false (by simp [includes]) (Rules.not_matches_take_nil notSpans)
  | case5 x a capture b single =>
      have notSpans : ¬ inclusion.Spans x := Bool.eq_false_iff.mp (isMulti_eq_false single)
      rw [Rules.matches_take_cons_iff notSpans]
      apply iff_of_false
      · simp [includes]
      · rintro ⟨⟨-, -, other, -⟩, -⟩
        cases other
  | case6 x a y b singleX singleY tail =>
      have notSpans : ¬ inclusion.Spans x := Bool.eq_false_iff.mp (isMulti_eq_false singleX)
      have tails := tail (fun z later => validA z (by simp [later]))
        (fun z later => validB z (by simp [later]))
      rw [Rules.matches_take_cons_iff notSpans, ← tails]
      simp only [includes, Bool.and_eq_true]
      constructor
      · rintro ⟨included, rest⟩
        exact ⟨⟨validA x (by simp), validB y (by simp), isMulti_eq_false singleY,
          included⟩, rest⟩
      · rintro ⟨⟨-, -, -, included⟩, rest⟩
        exact ⟨included, rest⟩

theorem covers_cases {a b : Str} (covered : covers a b = true) :
    ∃ chunksA chunksB, parse a = some chunksA ∧ parse b = some chunksB ∧
      inclusion.Matches chunksA chunksB := by
  rw [covers] at covered
  split at covered
  · rename_i chunksA chunksB parsedA parsedB
    exact ⟨chunksA, chunksB, parsedA, parsedB,
      (includes_iff (parse_valid parsedA) (parse_valid parsedB)).mp covered⟩
  · cases covered

theorem covers_of_matches {a b : Str} {chunksA chunksB : List Chunk}
    (parsedA : parse a = some chunksA) (parsedB : parse b = some chunksB)
    (matched : inclusion.Matches chunksA chunksB) : covers a b = true := by
  simp only [covers, parsedA, parsedB]
  exact (includes_iff (parse_valid parsedA) (parse_valid parsedB)).mpr matched

theorem matched_of_covers {a b key : Str} (covered : covers a b = true) (matched : Matched b key) :
    Matched a key := by
  obtain ⟨chunksA, chunksB, parsedA, parsedB, above⟩ := covers_cases covered
  rw [matched_iff_of_parse parsedA]
  rw [matched_iff_of_parse parsedB] at matched
  exact above.comp inclusion_composes_chunkRules matched

theorem covers_trans {a b c : Str} (first : covers a b = true) (second : covers b c = true) :
    covers a c = true := by
  obtain ⟨chunksA, chunksB, parsedA, parsedB, above⟩ := covers_cases first
  obtain ⟨others, chunksC, parsedOther, parsedC, below⟩ := covers_cases second
  obtain rfl : chunksB = others := Option.some.inj (parsedB.symm.trans parsedOther)
  exact covers_of_matches parsedA parsedC (above.comp inclusion_composes below)

theorem covers_refl {a : Str} {chunks : List Chunk} (parsed : parse a = some chunks) :
    covers a a = true := by
  apply covers_of_matches parsed parsed
  apply Rules.matches_refl
  · intro x isChunk multi
    cases x with
    | multi capture => rfl
    | _ => cases multi
  · intro x isChunk single
    have valid := parse_valid parsed x isChunk
    have notMulti : x.isMulti = false := Bool.eq_false_iff.mpr single
    exact ⟨valid, valid, notMulti, chunkIncludes_refl valid notMulti⟩

end AimDb.Zenoh
