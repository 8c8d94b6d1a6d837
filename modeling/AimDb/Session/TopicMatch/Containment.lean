import AimDb.Session.TopicMatch.Language
import Mathlib.Algebra.GroupWithZero.Nat
import Mathlib.Algebra.Order.BigOperators.Group.List
import Mathlib.Algebra.Order.Group.Nat

/-!
# Pattern containment

`patternContains` aligns the grant with the request itself.  Such an alignment
composes with every alignment of the request with a topic, so the check is
sound.  It is complete on the requests without `#`, and for the grants that
keep `*` and `#` apart: one long topic over a segment the grant does not know
already carries the alignment back.
-/

namespace AimDb.Session.TopicMatch

open AimDb.Wildcard

abbrev grantGrammar : Grammar String String := walkGrammar segmentContains

theorem patternContains_eq_true_iff {grant requested : String} :
    patternContains grant requested = true ↔
      grantGrammar.Aligns (segments grant) (segments requested) :=
  matchSegments_eq_true_iff

/-- A grant segment covers only requested segments that stand for one topic
segment, and then every topic segment those stand for. -/
theorem segmentContains_sound {g r : String} (single : g ≠ "#")
    (covered : segmentContains g r = true) :
    r ≠ "#" ∧ ∀ t, segmentMatches r t = true → segmentMatches g t = true := by
  by_cases star : g = "*"
  · subst star
    exact ⟨by simpa [segmentContains] using covered, fun t _ => by simp [segmentMatches]⟩
  · obtain rfl : g = r := by simpa [segmentContains, star] using covered
    exact ⟨single, fun t matched => matched⟩

theorem matchSet_subset_of_contains {grant requested : String}
    (contained : patternContains grant requested = true) :
    matchSet requested ⊆ matchSet grant := by
  intro topic matched
  have aligned := patternContains_eq_true_iff.mp contained
  refine mem_matchSet.mpr (aligned.comp (A := grantGrammar) (C := topicGrammar) (fun _ => rfl) ?_
    (mem_matchSet.mp matched))
  intro g r single covered
  obtain ⟨notHash, transfer⟩ := segmentContains_sound (by simpa using single) covered
  exact ⟨by simpa using notHash, transfer⟩

/-- The walk never grants a request that reaches a topic the grant does not cover. -/
theorem patternContains_sound {grant requested : String}
    (contained : patternContains grant requested = true) :
    matchSet requested ⊆ matchSet grant ∧
      ∀ topic, topicMatches requested topic = true → topicMatches grant topic = true := by
  have subset := matchSet_subset_of_contains contained
  refine ⟨subset, fun topic matched => ?_⟩
  exact topicMatches_eq_true_iff.mpr (subset (topicMatches_eq_true_iff.mp matched))

theorem patternContains_sound_interior_hash :
    matchSet "a.b.#.secret" ⊆ matchSet "a.#.secret" ∧
      ∀ topic, topicMatches "a.b.#.secret" topic = true →
        topicMatches "a.#.secret" topic = true :=
  patternContains_sound <| patternContains_eq_true_iff.mpr <| by
    have grant : segments "a.#.secret" = ["a", "#", "secret"] := by decide
    have request : segments "a.b.#.secret" = ["a", "b", "#", "secret"] := by decide
    rw [grant, request]
    exact .cover rfl rfl (.absorb rfl (.absorb rfl (.skip rfl (.cover rfl rfl .nil))))

/-- No `*` segment of the pattern is directly beside a `#` segment. -/
def StarsApart (pattern : String) : Prop :=
  (segments pattern).IsChain fun a b => ¬ (a = "*" ∧ b = "#") ∧ ¬ (a = "#" ∧ b = "*")

/-- A segment longer than every segment of `grant`, so none of them. -/
def freshSegment (grant : String) : String :=
  String.ofList (List.replicate ((segments grant).map String.length |>.sum.succ) 'x')

theorem freshSegment_not_mem (grant : String) : freshSegment grant ∉ segments grant := by
  intro isSegment
  have shorter := List.single_le_sum (fun _ _ => Nat.zero_le _) _
    (List.mem_map_of_mem (f := String.length) isSegment)
  simp [freshSegment] at shorter

def sampleSegment (fresh r : String) : String := if r = "*" then fresh else r

/-- The topic the completeness argument reads off a request. -/
def sampleTopic (grant requested : String) : List String :=
  Grammar.expand (· == "#") (sampleSegment (freshSegment grant)) (freshSegment grant)
    ((segments grant).length + 1) (segments requested)

theorem segmentContains_of_sample {fresh g r : String} (known : g ≠ fresh) (single : r ≠ "#")
    (matched : segmentMatches g (sampleSegment fresh r) = true) : segmentContains g r = true := by
  by_cases star : g = "*"
  · simpa [segmentContains, star] using single
  · have equal : g = sampleSegment fresh r := by simpa [segmentMatches, star] using matched
    by_cases requestStar : r = "*"
    · exact absurd (by simpa [sampleSegment, requestStar] using equal) known
    · simpa [segmentContains, star, sampleSegment, requestStar] using equal

theorem exists_segments_eq {ss : List String} (nonempty : ss ≠ [])
    (dotFree : ∀ s ∈ ss, '.' ∉ s.toList) : ∃ topic, segments topic = ss := by
  refine ⟨String.ofList (['.'].intercalate (ss.map String.toList)), ?_⟩
  rw [segments, String.toList_ofList, List.splitOn_intercalate]
  · simp [Function.comp_def]
  · simpa using dotFree
  · simpa using nonempty

theorem exists_topic_of_sample (grant requested : String) :
    ∃ topic, segments topic = sampleTopic grant requested := by
  have freshDotFree : '.' ∉ (freshSegment grant).toList := by simp [freshSegment]
  refine exists_segments_eq ?_ ?_
  · obtain ⟨r, rest, split⟩ : ∃ r rest, segments requested = r :: rest :=
      List.exists_cons_of_ne_nil (by simp [segments])
    by_cases hash : r = "#" <;>
      simp [sampleTopic, Grammar.expand, split, hash]
  · intro s sampled
    obtain ⟨r, isSegment, drawn⟩ := List.mem_flatMap.mp sampled
    by_cases hash : r = "#"
    · obtain rfl : s = freshSegment grant := by simpa [hash] using drawn
      exact freshDotFree
    · obtain rfl : s = sampleSegment (freshSegment grant) r := by simpa [hash] using drawn
      by_cases star : r = "*"
      · simpa [sampleSegment, star] using freshDotFree
      · intro dot
        exact (mem_of_mem_segment isSegment (by simpa [sampleSegment, star] using dot)).2 rfl

/-- Inclusion of match sets gives the walk's segment-wise decomposition. -/
theorem patternContains_complete {grant requested : String}
    (ordinary : "#" ∉ segments requested ∨ StarsApart grant)
    (subset : matchSet requested ⊆ matchSet grant) : patternContains grant requested = true := by
  obtain ⟨topic, split⟩ := exists_topic_of_sample grant requested
  have requestMatches : topic ∈ matchSet requested := by
    rw [mem_matchSet, split]
    refine Grammar.aligns_expand (B := topicGrammar) _ _ _ (fun r _ => ?_) _
    by_cases star : r = "*" <;> simp [sampleSegment, segmentMatches, star]
  have grantMatches := mem_matchSet.mp (subset requestMatches)
  rw [split] at grantMatches
  have known : ∀ g ∈ segments grant, g ≠ freshSegment grant := by
    rintro g isSegment rfl
    exact freshSegment_not_mem grant isSegment
  have wildIsStar {g : String} (isSegment : g ∈ segments grant)
      (wild : topicGrammar.Wild (freshSegment grant) g) : g = "*" := by
    simpa [Grammar.Wild, segmentMatches, known g isSegment] using wild.2
  rw [patternContains_eq_true_iff]
  refine Grammar.aligns_of_aligns_expand (· == "#") _ (freshSegment grant) _
    (A := grantGrammar) (C := topicGrammar) (fun _ => rfl) ?_ (Nat.lt_succ_self _)
    ?_ grantMatches
  · intro g isSegment r _ single matched
    exact segmentContains_of_sample (known g isSegment) (by simpa using single) matched
  · refine ordinary.imp ?_ fun apart => ?_
    · intro noHash r isSegment
      simpa using fun hash : r = "#" => noHash (hash ▸ isSegment)
    · refine List.IsChain.imp_of_mem_imp ?_ apart
      intro a b isA isB separate
      constructor
      · rintro ⟨wild, spanning⟩
        exact separate.1 ⟨wildIsStar isA wild, by simpa using spanning⟩
      · rintro ⟨spanning, wild⟩
        exact separate.2 ⟨by simpa using spanning, wildIsStar isB wild⟩

theorem patternContains_iff_subset {grant requested : String}
    (ordinary : "#" ∉ segments requested ∨ StarsApart grant) :
    patternContains grant requested = true ↔ matchSet requested ⊆ matchSet grant :=
  ⟨matchSet_subset_of_contains, patternContains_complete ordinary⟩

/-- For requests without `#`, and for grants with no `*` beside a `#`, the check
is exactly inclusion of match sets; on a topic without wildcard segments it is
exactly `topicMatches`. -/
theorem patternContains_exact :
    (∀ grant requested, ("#" ∉ segments requested ∨ StarsApart grant) →
      (patternContains grant requested = true ↔ matchSet requested ⊆ matchSet grant)) ∧
    ∀ grant topic, (∀ s ∈ segments topic, s ≠ "#" ∧ s ≠ "*") →
      patternContains grant topic = topicMatches grant topic := by
  refine ⟨fun grant requested ordinary => patternContains_iff_subset ordinary, ?_⟩
  intro grant topic literal
  rw [Bool.eq_iff_iff, patternContains_iff_subset (.inl fun hash => (literal _ hash).1 rfl),
    matchSet_literal literal, Set.singleton_subset_iff, topicMatches_eq_true_iff]

theorem patternContains_exact_interior_hash :
    (patternContains "a.#.b" "a.*.b" = true ↔ matchSet "a.*.b" ⊆ matchSet "a.#.b") ∧
      patternContains "a.*.#" "a.b" = topicMatches "a.*.#" "a.b" :=
  ⟨patternContains_exact.1 _ _ (.inl (by decide)), patternContains_exact.2 _ _ (by decide)⟩

end AimDb.Session.TopicMatch
