import AimDb.Session.TopicMatch
import AimDb.Wildcard.Alignment
import AimDb.Wildcard.Split
import Mathlib.Data.Set.Insert

/-!
# The segment walk decides alignment

The greedy walk with a single backtrack point finds an alignment whenever
there is one.  From this `topicMatches`, fast paths included, is membership in
the match set of its pattern.
-/

namespace AimDb.Session.TopicMatch

open AimDb.Wildcard

/-- The wildcard grammar of the walk: `#` spans, everything else asks `covers`. -/
def walkGrammar (covers : String → String → Bool) : Grammar String String where
  spans p := p == "#"
  covers := covers

@[simp]
theorem walkGrammar_spans (covers : String → String → Bool) (p : String) :
    (walkGrammar covers).spans p = (p == "#") := rfl

@[simp]
theorem walkGrammar_covers (covers : String → String → Bool) (p s : String) :
    (walkGrammar covers).covers p s = covers p s := rfl

namespace Walk

variable {covers : String → String → Bool}

/-- What the walk can still find: the rest aligns, or the most recent `#` can
grow to an alignment. -/
def CanFinish (covers : String → String → Bool) (walk : Walk) : Prop :=
  (walkGrammar covers).Aligns walk.pat walk.sub ∨
    ∃ patAfterHash s grown, walk.resume = some (patAfterHash, s :: grown) ∧
      (walkGrammar covers).Aligns ("#" :: patAfterHash) grown

/-- Since the most recent `#` the walk has covered segments one by one. -/
def Anchored (walk : Walk) : Prop :=
  ∀ patAfterHash subAtHash, walk.resume = some (patAfterHash, subAtHash) →
    ∃ front, (∀ p ∈ front, p ≠ "#") ∧ patAfterHash = front ++ walk.pat ∧
      walk.sub = subAtHash.drop front.length

theorem stuck_not_aligns {walk : Walk} (stuck : walk.Stuck covers) :
    ¬ (walkGrammar covers).Aligns walk.pat walk.sub := by
  obtain ⟨pat, sub, resume⟩ := walk
  intro aligned
  rcases pat with _ | ⟨p, patRest⟩
  · exact stuck (Grammar.aligns_nil_iff.mp aligned)
  · rcases sub with _ | ⟨s, subRest⟩
    · exact stuck (by simpa using Grammar.aligns_empty_iff.mp aligned p (by simp))
    · obtain ⟨hash, uncovered⟩ := stuck
      obtain ⟨_, _, split, covered, -⟩ :=
        (Grammar.aligns_cover_iff (G := walkGrammar covers) (by simpa using hash)).mp aligned
      simp only [List.cons.injEq] at split
      obtain ⟨rfl, rfl⟩ := split
      simp [uncovered] at covered

/-- Reaching the next `#` loses nothing an earlier `#` could still have found. -/
theorem canFinish_hash {walk : Walk} {patRest : List String} (anchored : walk.Anchored)
    (pat : walk.pat = "#" :: patRest) :
    walk.CanFinish covers ↔
      CanFinish covers ⟨patRest, walk.sub, some (patRest, walk.sub)⟩ := by
  have spanning : (walkGrammar covers).spans "#" = true := rfl
  have regrown : CanFinish covers ⟨patRest, walk.sub, some (patRest, walk.sub)⟩ ↔
      (walkGrammar covers).Aligns ("#" :: patRest) walk.sub := by
    constructor
    · rintro (aligned | ⟨patAfterHash, s, grown, resume, aligned⟩)
      · exact .skip spanning aligned
      · simp only [Option.some.injEq, Prod.mk.injEq] at resume
        obtain ⟨rfl, sub⟩ := resume
        rw [sub]
        exact .absorb spanning aligned
    · intro aligned
      rcases sub : walk.sub with _ | ⟨s, rest⟩ <;> rw [sub] at aligned
      · cases aligned with
        | skip _ tail => exact .inl (by simpa [sub] using tail)
      · cases aligned with
        | skip _ tail => exact .inl tail
        | absorb _ tail => exact .inr ⟨patRest, s, rest, rfl, tail⟩
        | cover single _ _ => simp at single
  rw [regrown]
  constructor
  · rintro (aligned | ⟨patAfterHash, s, grown, resume, aligned⟩)
    · rwa [pat] at aligned
    · -- what the earlier `#` finds after growing, the new one finds from here
      obtain ⟨front, singles, rfl, sub⟩ := anchored _ _ resume
      rw [pat] at aligned
      rw [sub]
      exact Grammar.Aligns.grow_later spanning spanning
        (fun p hp => by simpa using singles p hp) aligned (List.suffix_cons s grown)
  · intro aligned
    exact .inl (by rwa [pat])

theorem turn_next {walk next : Walk} (anchored : walk.Anchored)
    (turned : walk.turn covers = .next next) :
    next.Anchored ∧ (walk.CanFinish covers ↔ next.CanFinish covers) := by
  rcases turn_cases covers walk with ⟨patRest, pat, hash⟩ |
    ⟨p, patRest, s, subRest, pat, sub, single, covered, cover⟩ | ⟨-, -, accept⟩ |
      ⟨stuck, fallback⟩
  · obtain rfl : _ = next := by simpa [hash] using turned
    refine ⟨?_, canFinish_hash anchored pat⟩
    intro patAfterHash subAtHash resume
    simp only [Option.some.injEq, Prod.mk.injEq] at resume
    exact ⟨[], by simp, by simp [resume.1], by simp [resume.2]⟩
  · obtain rfl : _ = next := by simpa [cover] using turned
    constructor
    · intro patAfterHash subAtHash resume
      obtain ⟨front, singles, rfl, rest⟩ := anchored _ _ resume
      refine ⟨front ++ [p], ?_, by simp [pat], ?_⟩
      · simp only [List.mem_append, List.mem_singleton]
        rintro q (inFront | rfl)
        · exact singles q inFront
        · exact single
      · rw [sub] at rest
        simp [← List.drop_drop, ← rest]
    · have headTail : (walkGrammar covers).Aligns walk.pat walk.sub ↔
          (walkGrammar covers).Aligns patRest subRest := by
        rw [pat, sub, Grammar.aligns_cover_iff (by simpa using single)]
        simp [covered]
      simp only [CanFinish, headTail]
  · simp [accept] at turned
  · rw [fallback] at turned
    rcases walk.backtrack_cases with ⟨patAfterHash, s, grown, resume, grow⟩ | ⟨-, give⟩
    · obtain rfl : _ = next := by simpa [grow] using turned
      constructor
      · intro pat sub resumed
        simp only [Option.some.injEq, Prod.mk.injEq] at resumed
        exact ⟨[], by simp, by simp [resumed.1], by simp [resumed.2]⟩
      · have atHash : Anchored ⟨"#" :: patAfterHash, grown, none⟩ := by simp [Anchored]
        rw [← canFinish_hash atHash rfl]
        simp [CanFinish, stuck_not_aligns stuck, resume]
    · simp [give] at turned

/-- The answer of the last turn is whether anything could still be found. -/
theorem turn_done {walk : Walk} {answer : Bool} (turned : walk.turn covers = .done answer) :
    walk.CanFinish covers ↔ answer = true := by
  rcases turn_cases covers walk with ⟨patRest, -, hash⟩ |
    ⟨p, patRest, s, subRest, -, -, -, -, cover⟩ | ⟨pat, sub, accept⟩ | ⟨stuck, fallback⟩
  · simp [hash] at turned
  · simp [cover] at turned
  · obtain rfl : true = answer := by simpa [accept] using turned
    simp [CanFinish, pat, sub]
  · rw [fallback] at turned
    rcases walk.backtrack_cases with ⟨patAfterHash, s, grown, -, grow⟩ | ⟨exhausted, give⟩
    · simp [grow] at turned
    · obtain rfl : false = answer := by simpa [give] using turned
      simp [CanFinish, stuck_not_aligns stuck, exhausted]

theorem run_eq_true_iff {walk : Walk} (anchored : walk.Anchored) :
    walk.run covers = true ↔ walk.CanFinish covers := by
  fun_induction run covers walk with
  | case1 walk answer turned => exact (turn_done turned).symm
  | case2 walk next turned ih =>
    obtain ⟨nextAnchored, same⟩ := turn_next anchored turned
    rw [ih nextAnchored, same]

end Walk

/-- The single-backtrack walk is complete: it answers whether an alignment exists. -/
theorem matchSegments_eq_true_iff {pattern subject : String}
    {covers : String → String → Bool} :
    matchSegments pattern subject covers = true ↔
      (walkGrammar covers).Aligns (segments pattern) (segments subject) := by
  rw [matchSegments, Walk.run_eq_true_iff (by simp [Walk.Anchored])]
  simp [Walk.CanFinish]

/-- Dot-split segments, `*` exactly one segment, `#` zero or more, literals equal. -/
abbrev topicGrammar : Grammar String String := walkGrammar segmentMatches

def matchSet (pattern : String) : Set String :=
  {topic | topicGrammar.Aligns (segments pattern) (segments topic)}

theorem mem_matchSet {pattern topic : String} :
    topic ∈ matchSet pattern ↔ topicGrammar.Aligns (segments pattern) (segments topic) :=
  Iff.rfl

theorem aligns_self (ss : List String) : topicGrammar.Aligns ss ss := by
  induction ss with
  | nil => exact .nil
  | cons s ss ih =>
    by_cases hash : s = "#"
    · exact .absorb (by simp [hash]) (.skip (by simp [hash]) ih)
    · exact .cover (by simpa using hash) (by simp [segmentMatches]) ih

/-- A literal prefix followed by a trailing `#` asks for that prefix. -/
theorem aligns_literal_hash_iff {stem ss : List String}
    (literal : ∀ s ∈ stem, s ≠ "#" ∧ s ≠ "*") :
    topicGrammar.Aligns (stem ++ ["#"]) ss ↔ stem <+: ss := by
  induction stem generalizing ss with
  | nil =>
    simp only [List.nil_append, List.nil_prefix, iff_true]
    exact (Grammar.Aligns.skip rfl .nil).grow rfl List.nil_suffix
  | cons s stem ih =>
    obtain ⟨notHash, notStar⟩ := literal s (by simp)
    rw [List.cons_append, Grammar.aligns_cover_iff (by simpa using notHash)]
    have tail := @ih
    simp only [walkGrammar_covers, segmentMatches, Bool.or_eq_true, beq_iff_eq, notStar, false_or]
    constructor
    · rintro ⟨_, rest, rfl, rfl, aligned⟩
      exact List.cons_prefix_cons.mpr
        ⟨rfl, (ih fun q hq => literal q (by simp [hq])).mp aligned⟩
    · rintro ⟨rest, rfl⟩
      exact ⟨s, stem ++ rest, rfl, rfl,
        (ih fun q hq => literal q (by simp [hq])).mpr (List.prefix_append _ _)⟩

theorem mem_of_mem_segment {s segment : String} {c : Char} (isSegment : segment ∈ segments s)
    (inSegment : c ∈ segment.toList) : c ∈ s.toList ∧ c ≠ '.' := by
  obtain ⟨piece, isPiece, rfl⟩ := List.mem_map.mp isSegment
  exact mem_of_mem_piece isPiece (by simpa using inSegment)

theorem segments_prefix_iff {stem topic : List Char} :
    (stem.splitOn '.').map String.ofList <+: (topic.splitOn '.').map String.ofList ↔
      stem.isPrefixOf topic = true ∧
        (topic.length = stem.length ∨ topic[stem.length]? = some '.') := by
  rw [List.prefix_map_iff_of_injective (fun a b same => String.ofList_injective same),
    splitOn_prefix_iff]
  constructor
  · rintro (rfl | ⟨rest, rfl⟩)
    · exact ⟨by simp, .inl rfl⟩
    · exact ⟨by simp, .inr (by simp)⟩
  · rintro ⟨isPrefix, boundary⟩
    obtain ⟨rest, rfl⟩ := List.isPrefixOf_iff_prefix.mp isPrefix
    rcases rest with _ | ⟨c, rest⟩
    · exact .inl (by simp)
    · obtain rfl : c = '.' := by simpa using boundary
      exact .inr ⟨rest, rfl⟩

theorem segments_of_dropSuffix {pattern : String} {stem : List Char}
    (strip : pattern.toList.dropSuffix? ".#".toList = some stem) :
    segments pattern = (stem.splitOn '.').map String.ofList ++ ["#"] := by
  obtain ⟨suffix, split, same⟩ := List.dropSuffix?_eq_some_iff.mp strip
  obtain rfl : suffix = '.' :: ['#'] := by simpa using same
  rw [segments, split, List.splitOn_append_cons_self, List.map_append]
  rfl

theorem ne_wildcard_of_not_contains {stem : List Char} {segment : String}
    (literal : (!stem.contains '*' && !stem.contains '#') = true)
    (isSegment : segment ∈ (stem.splitOn '.').map String.ofList) :
    segment ≠ "#" ∧ segment ≠ "*" := by
  obtain ⟨piece, isPiece, rfl⟩ := List.mem_map.mp isSegment
  simp only [Bool.and_eq_true, Bool.not_eq_true', List.contains_eq_mem,
    decide_eq_false_iff_not] at literal
  constructor
  · intro hash
    obtain rfl : piece = ['#'] := String.ofList_injective hash
    exact literal.2 (mem_of_mem_piece isPiece (by simp)).1
  · intro star
    obtain rfl : piece = ['*'] := String.ofList_injective star
    exact literal.1 (mem_of_mem_piece isPiece (by simp)).1

theorem topicMatches_eq_true_iff {pattern topic : String} :
    topicMatches pattern topic = true ↔ topic ∈ matchSet pattern := by
  have general : matchSegments pattern topic segmentMatches = true ↔ topic ∈ matchSet pattern :=
    matchSegments_eq_true_iff
  rw [topicMatches]
  split
  · rename_i same
    subst same
    simpa [mem_matchSet] using aligns_self _
  split
  · rename_i hash
    subst hash
    have all : topicGrammar.Aligns ["#"] (segments topic) :=
      (Grammar.Aligns.skip rfl .nil).grow rfl List.nil_suffix
    have single : segments "#" = ["#"] := by decide
    rw [mem_matchSet, single]
    exact iff_of_true rfl all
  split
  · rename_i stem strip
    split
    · rename_i literal
      rw [mem_matchSet, segments_of_dropSuffix strip, aligns_literal_hash_iff
        fun s isSegment => ne_wildcard_of_not_contains literal isSegment, segments,
        segments_prefix_iff]
      simp [Bool.and_eq_true, Bool.or_eq_true]
    · exact general
  · exact general

theorem segments_injective : Function.Injective segments :=
  (List.map_injective_iff.mpr fun _ _ same => String.ofList_injective same).comp
    (splitOn_injective.comp fun _ _ same => String.toList_injective same)

theorem matchSet_literal {topic : String}
    (literal : ∀ s ∈ segments topic, s ≠ "#" ∧ s ≠ "*") : matchSet topic = {topic} := by
  have only {stem ss : List String} (literal : ∀ s ∈ stem, s ≠ "#" ∧ s ≠ "*")
      (aligned : topicGrammar.Aligns stem ss) : ss = stem := by
    induction aligned with
    | nil => rfl
    | skip spanning _ _ => exact absurd (beq_iff_eq.mp spanning) (literal _ (by simp)).1
    | absorb spanning _ _ => exact absurd (beq_iff_eq.mp spanning) (literal _ (by simp)).1
    | @cover p _ s _ _ covered _ ih =>
      have equal : p = s := by
        simpa [segmentMatches, (literal p (by simp)).2] using covered
      rw [equal, ih fun q hq => literal q (by simp [hq])]
  ext other
  rw [Set.mem_singleton_iff, mem_matchSet]
  exact ⟨fun aligned => segments_injective (only literal aligned),
    fun same => same ▸ aligns_self _⟩

/-- The runs of topic segments one pattern segment stands for: any with `#`, one
segment with `*`, and itself otherwise. -/
def StandsFor (segment : String) (run : List String) : Prop :=
  if segment = "#" then True
  else if segment = "*" then run.length = 1
  else run = [segment]

theorem standsFor_iff {segment : String} {run : List String} :
    StandsFor segment run ↔ topicGrammar.Fills segment run := by
  rw [StandsFor, Wildcard.Grammar.Fills, walkGrammar_spans, beq_iff_eq]
  split_ifs with hash star
  · simp [hash]
  · simp [star, segmentMatches, List.length_eq_one_iff]
  · simp [hash, star, segmentMatches]

/-- Every expansion of every `#`, tried in turn. -/
def searchSegments (pattern topic : String) : Bool :=
  topicGrammar.search (segments pattern) (segments topic)

namespace Walk

def after (covers : String → String → Bool) (walk : Walk) : ℕ → Turn
  | 0 => .next walk
  | turns + 1 =>
      match walk.turn covers with
      | .done answer => .done answer
      | .next next => next.after covers turns

theorem exists_after_eq_done (covers : String → String → Bool) (walk : Walk) :
    ∃ turns, walk.after covers turns = .done (walk.run covers) := by
  fun_induction run covers walk with
  | case1 walk answer turned => exact ⟨1, by rw [after, turned]⟩
  | case2 walk next turned inductionHypothesis =>
      obtain ⟨turns, ended⟩ := inductionHypothesis
      exact ⟨turns + 1, by rw [after, turned]; exact ended⟩

end Walk

/-- `topic_matches` decides the wildcard table, whichever way it takes. -/
structure Decides (pattern topic : String) : Prop where
  split : topicMatches pattern topic = true ↔
    ∃ runs : List (List String), runs.flatten = segments topic ∧
      List.Forall₂ StandsFor (segments pattern) runs
  fastPaths : topicMatches pattern topic = matchSegments pattern topic segmentMatches
  exhaustive : matchSegments pattern topic segmentMatches = searchSegments pattern topic
  terminates : ∃ turns, Walk.after segmentMatches
    ⟨segments pattern, segments topic, none⟩ turns =
    .done (matchSegments pattern topic segmentMatches)

theorem decides (pattern topic : String) : Decides pattern topic := by
  have walk : matchSegments pattern topic segmentMatches = true ↔ topic ∈ matchSet pattern :=
    matchSegments_eq_true_iff
  constructor
  · rw [topicMatches_eq_true_iff, mem_matchSet, Wildcard.Grammar.aligns_iff_fills]
    have same : (fun segment run => topicGrammar.Fills segment run) = StandsFor := by
      funext segment run
      exact propext standsFor_iff.symm
    exact same ▸ Iff.rfl
  · rw [Bool.eq_iff_iff, topicMatches_eq_true_iff, walk]
  · rw [Bool.eq_iff_iff, walk, searchSegments, Wildcard.Grammar.search_eq_true_iff, mem_matchSet]
  · exact Walk.exists_after_eq_done segmentMatches _

end AimDb.Session.TopicMatch
