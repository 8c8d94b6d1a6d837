import AimDb.Router.Subscriptions
import AimDb.Zenoh.Covering

/-!
# Matching a key

The matcher walks the key by byte positions.  What is left at a position is a
list of chunks, and whatever the walk accepts splits these chunks among the
chunks of the pattern.
-/

namespace AimDb.Zenoh

open Topic Wildcard

theorem dropBytes_append (before rest : Str) :
    dropBytes (before ++ rest) (byteLen before) = rest := by
  induction before with
  | nil => cases rest <;> rfl
  | cons c before inductionHypothesis =>
      have wide := Char.utf8Size_pos c
      rw [List.cons_append, byteLen_cons, dropBytes]
      · rwa [Nat.add_sub_cancel_left]
      · omega

def At (topic : Str) : Option Nat → List Str → Prop
  | none, chunks => chunks = []
  | some p, chunks => ∃ before rest, topic = before ++ rest ∧ p = byteLen before ∧
      chunks = rest.splitOn '/'

theorem At.chunkAt {topic : Str} {p : Nat} {chunks : List Str} (left : At topic (some p) chunks) :
    ∃ more, chunks = (chunkAt topic p).1 :: more ∧ At topic (chunkAt topic p).2 more := by
  obtain ⟨before, rest, rfl, rfl, rfl⟩ := left
  have whole := List.takeWhile_append_dropWhile (p := (· != '/')) (l := rest)
  rw [splitOn_eq_takeWhile_cons, Zenoh.chunkAt, dropBytes_append]
  cases after : rest.dropWhile (· != '/') with
  | nil =>
      have noSlash : rest.contains '/' = false := by
        rw [List.dropWhile_eq_nil_iff] at after
        rw [Bool.eq_false_iff]
        intro slash
        simpa using after '/' (by simpa using slash)
      rw [after, List.append_nil] at whole
      simp only [noSlash, Bool.false_eq_true, if_false, whole]
      exact ⟨[], rfl, rfl⟩
  | cons c next =>
      obtain rfl : c = '/' := by
        have head := List.head_dropWhile_not (· != '/') (l := rest) (by simp [after])
        simpa [after] using head
      have slash : rest.contains '/' = true := by
        rw [← whole, after]
        simp
      simp only [slash, if_true]
      refine ⟨next.splitOn '/', rfl, before ++ rest.takeWhile (· != '/') ++ ['/'], next,
        ?_, ?_, rfl⟩
      · conv_lhs => rw [← whole, after]
        simp
      · simp [Nat.add_assoc]
        rfl

theorem at_start (topic : Str) :
    At topic (if topic.isEmpty then none else some 0) (keyChunks topic) := by
  cases topic with
  | nil => rfl
  | cons c topic => exact ⟨[], c :: topic, rfl, rfl, rfl⟩

theorem takes_of_fits {chunk : Chunk} {text : Str} {here : Nat} {spans : Spans}
    (valid : chunk.Valid) (fits : (ZenohFilter.chunkFits text here spans chunk).1 = true) :
    chunk.Takes text := by
  cases chunk with
  | literal literal =>
      have same : literal = text := by simpa [ZenohFilter.chunkFits] using fits
      exact same.symm
  | single capture =>
      change startsWith '@' text = false
      simpa [ZenohFilter.chunkFits] using fits
  | multi capture => cases fits
  | glob pieces =>
      obtain ⟨first, middles, last, rfl, -⟩ := valid
      obtain ⟨plain, matched⟩ := Bool.and_eq_true_iff.mp fits
      exact ⟨by simpa using plain, globMatches_iff.mp matched⟩

theorem segmentAt_spec {topic : Str} {segment : List Chunk} {position after : Option Nat}
    {spans : Spans} {chunks : List Str} (valid : ∀ chunk ∈ segment, chunk.Valid)
    (left : At topic position chunks)
    (found : (ZenohFilter.segmentAt topic segment position spans).1 = some after) :
    ∃ taken rest, chunks = taken ++ rest ∧ List.Forall₂ Chunk.Takes segment taken ∧
      At topic after rest := by
  induction segment generalizing position spans chunks with
  | nil =>
      obtain rfl : position = after := Option.some.inj found
      exact ⟨[], chunks, rfl, .nil, left⟩
  | cons chunk segment inductionHypothesis =>
      cases position with
      | none => cases found
      | some p =>
          obtain ⟨more, rfl, behind⟩ := left.chunkAt
          simp only [ZenohFilter.segmentAt] at found
          split at found
          · rename_i fits
            obtain ⟨taken, rest, rfl, takes, reached⟩ := inductionHypothesis
              (fun other later => valid other (by simp [later])) behind found
            exact ⟨_ :: taken, rest, rfl,
              .cons (takes_of_fits (valid chunk (by simp)) fits) takes, reached⟩
          · cases found

theorem gapFrom_spec {topic : Str} {segment : List Chunk} {last : Bool} {capture : Option Nat}
    {gapStart gapEnd : Nat} {here after : Option Nat} {spans : Spans} {chunks : List Str}
    (valid : ∀ chunk ∈ segment, chunk.Valid) (left : At topic here chunks)
    (found : (ZenohFilter.gapFrom topic segment last capture gapStart gapEnd here spans).1 =
      some after) :
    ∃ run taken rest, chunks = run ++ (taken ++ rest) ∧
      (∀ t ∈ run, chunkRules.Absorbs t) ∧ List.Forall₂ Chunk.Takes segment taken ∧
      At topic after rest ∧ (last = true → after = none) := by
  induction gapEnd, here, spans using ZenohFilter.gapFrom.induct topic segment last capture gapStart
    generalizing chunks with
  | case1 gapEnd here spans attempt fitted =>
      rename_i fits
      unfold ZenohFilter.gapFrom at found
      simp only [attempt] at fits
      simp only [fits, Option.some.injEq] at found
      obtain rfl := found
      obtain ⟨segmentFits, allowed⟩ := Option.filter_eq_some_iff.mp fits
      obtain ⟨taken, rest, rfl, takes, reached⟩ := segmentAt_spec valid left segmentFits
      refine ⟨[], taken, rest, rfl, by simp, takes, reached, ?_⟩
      rintro rfl
      simpa using allowed
  | case2 gapEnd spans attempt =>
      rename_i stuck
      unfold ZenohFilter.gapFrom at found
      simp only [attempt] at stuck
      simp only [stuck] at found
      cases found
  | case3 gapEnd spans p verbatim attempt =>
      rename_i stuck
      unfold ZenohFilter.gapFrom at found
      simp only [attempt] at stuck
      simp only [stuck, verbatim, if_true] at found
      cases found
  | case4 gapEnd spans p plain attempt =>
      rename_i stuck inductionHypothesis
      unfold ZenohFilter.gapFrom at found
      simp only [attempt] at stuck
      simp only [stuck, plain, Bool.false_eq_true, if_false] at found
      obtain ⟨more, rfl, behind⟩ := left.chunkAt
      obtain ⟨run, taken, rest, rfl, absorbs, takes, reached, used⟩ :=
        inductionHypothesis behind found
      refine ⟨_ :: run, taken, rest, rfl, ?_, takes, reached, used⟩
      intro t inRun
      rcases List.mem_cons.mp inRun with rfl | later
      · exact Bool.eq_false_iff.mpr plain
      · exact absorbs t later

/-- The segments behind the first one, with the `**` in front of each. -/
def Behind (segments : List (List Chunk)) (chunks : List Chunk) : Prop :=
  segments = [] ∧ chunks = [] ∨
    ∃ multi rest, chunkRules.Spans multi ∧ chunks = multi :: rest ∧
      segments = rest.splitOnP Chunk.isMulti

theorem splitOnP_cons_cases {chunks : List Chunk} {segment : List Chunk}
    {segments : List (List Chunk)} (split : chunks.splitOnP Chunk.isMulti = segment :: segments) :
    (∀ chunk ∈ segment, ¬ chunkRules.Spans chunk) ∧
      ∃ pattern, chunks = segment ++ pattern ∧ Behind segments pattern := by
  induction chunks generalizing segment segments with
  | nil =>
      rw [List.splitOnP_nil] at split
      obtain ⟨rfl, rfl⟩ := List.cons.inj split
      exact ⟨by simp, [], rfl, .inl ⟨rfl, rfl⟩⟩
  | cons chunk chunks inductionHypothesis =>
      rw [List.splitOnP_cons_eq_if_modifyHead] at split
      split at split
      · rename_i multi
        obtain ⟨rfl, rfl⟩ := List.cons.inj split
        exact ⟨by simp, chunk :: chunks, rfl, .inr ⟨chunk, chunks, multi, rfl, rfl⟩⟩
      · rename_i single
        cases pieces : chunks.splitOnP Chunk.isMulti with
        | nil => exact absurd pieces (List.splitOnP_ne_nil _ _)
        | cons head tail =>
            rw [pieces, List.modifyHead_cons] at split
            obtain ⟨rfl, rfl⟩ := List.cons.inj split
            obtain ⟨singles, pattern, rfl, behind⟩ := inductionHypothesis pieces
            refine ⟨?_, pattern, rfl, behind⟩
            intro other inSegment
            rcases List.mem_cons.mp inSegment with rfl | later
            · exact single
            · exact singles other later

theorem matchSegments_spec {topic : Str} {segments : List (List Chunk)}
    {multis : List (Option Nat)} {position : Option Nat} {spans : Spans} {pattern : List Chunk}
    {chunks : List Str} (valid : ∀ chunk ∈ pattern, chunk.Valid)
    (behind : Behind segments pattern)
    (left : At topic position chunks)
    (matched : (ZenohFilter.matchSegments topic segments multis position spans).1 = true) :
    chunkRules.Matches pattern chunks := by
  induction segments generalizing multis position spans pattern chunks with
  | nil =>
      rcases behind with ⟨-, rfl⟩ | ⟨multi, rest, spans, rfl, split⟩
      · cases position with
        | none =>
            obtain rfl : chunks = [] := left
            exact .nil
        | some p => cases matched
      · exact absurd split.symm (List.splitOnP_ne_nil _ _)
  | cons segment segments inductionHypothesis =>
      rcases behind with ⟨impossible, -⟩ | ⟨multi, rest, multiSpans, rfl, split⟩
      · cases impossible
      · obtain ⟨singles, pattern, rfl, tailBehind⟩ := splitOnP_cons_cases split.symm
        have validSegment : ∀ chunk ∈ segment, chunk.Valid :=
          fun chunk inSegment => valid chunk (by simp [inSegment])
        simp only [ZenohFilter.matchSegments] at matched
        split at matched
        · cases matched
        · rename_i after next gap
          obtain ⟨run, taken, rest, rfl, absorbs, takes, reached, -⟩ :=
            gapFrom_spec validSegment left (congrArg Prod.fst gap)
          apply Rules.Matches.absorb_run multiSpans absorbs
          apply Rules.Matches.skip multiSpans
          apply Rules.Matches.block singles takes
          exact inductionHypothesis (fun chunk later => valid chunk (by simp [later]))
            tailBehind reached matched

theorem ZenohFilter.Valid.matches_of_isMatch {f : ZenohFilter} (valid : f.Valid) {topic : Str}
    {spans : Spans} (matched : (f.isMatch topic spans).1 = true) :
    chunkRules.Matches f.chunks (keyChunks topic) := by
  unfold ZenohFilter.isMatch at matched
  split at matched
  · cases matched
  cases split : f.chunks.splitOnP Chunk.isMulti with
  | nil => exact absurd split (List.splitOnP_ne_nil _ _)
  | cons segment segments =>
      obtain ⟨singles, pattern, whole, behind⟩ := splitOnP_cons_cases split
      have validAll : ∀ chunk ∈ segment ++ pattern, chunk.Valid := whole ▸ valid.valid
      simp only [split, List.headD_cons, List.tail_cons] at matched
      split at matched
      · cases matched
      · rename_i position next found
        obtain ⟨taken, rest, chunks, takes, reached⟩ := segmentAt_spec
          (fun chunk inSegment => validAll chunk (by simp [inSegment])) (at_start topic)
          (congrArg Prod.fst found)
        rw [whole, chunks]
        apply Rules.Matches.block singles takes
        exact matchSegments_spec (fun chunk inTail => validAll chunk (by simp [inTail])) behind
          reached matched

theorem normal_of_literal {chunks : List Chunk} (literal : chunks.all Chunk.isLiteral = true) :
    normal chunks 0 false = chunks := by
  induction chunks with
  | nil => rfl
  | cons chunk chunks inductionHypothesis =>
      obtain ⟨head, tail⟩ := Bool.and_eq_true_iff.mp literal
      cases chunk with
      | literal text =>
          rw [normal, inductionHypothesis tail]
          rfl
      | single capture => cases head
      | multi capture => cases head
      | glob pieces => cases head

theorem ZenohFilter.Valid.matched_of_literal {f : ZenohFilter} (valid : f.Valid)
    (literal : f.isLiteral = true) : Matched f.filter f.filter := by
  have isLiteral : ∀ chunk ∈ f.chunks, ∃ text, chunk = .literal text := by
    intro chunk isChunk
    have each := List.all_eq_true.mp literal chunk isChunk
    cases chunk with
    | literal text => exact ⟨text, rfl⟩
    | single capture => cases each
    | multi capture => cases each
    | glob pieces => cases each
  have split : f.filter.splitOn '/' = f.chunks.map Chunk.render := by
    rw [valid.splitOn_filter, normal_of_literal literal]
  have some : f.filter ≠ [] := by
    intro empty
    obtain ⟨chunk, isChunk⟩ := List.exists_mem_of_ne_nil _ valid.nonempty
    obtain ⟨text, rfl⟩ := isLiteral chunk isChunk
    have isText : text ∈ f.filter.splitOn '/' := split ▸ List.mem_map.mpr ⟨_, isChunk, rfl⟩
    rw [empty, List.splitOn_nil] at isText
    exact (valid.valid _ isChunk).1 (List.mem_singleton.mp isText)
  have takes : List.Forall₂ Chunk.Takes f.chunks (f.chunks.map Chunk.render) := by
    rw [List.forall₂_map_right_iff, List.forall₂_same]
    intro chunk isChunk
    obtain ⟨text, rfl⟩ := isLiteral chunk isChunk
    rfl
  have single : ∀ chunk ∈ f.chunks, ¬ chunkRules.Spans chunk := by
    intro chunk isChunk spans
    obtain ⟨text, rfl⟩ := isLiteral chunk isChunk
    cases spans
  rw [valid.matched_iff, keyChunks, if_neg some, split]
  simpa using Rules.Matches.block single takes (.nil (R := chunkRules))

theorem compile_spec {pattern : TopicPattern} {compiled : TopicFilter}
    (ok : zenohGrammar.compile pattern = .ok compiled) :
    ∃ f : ZenohFilter, f.Valid ∧ compiled = f.asTopicFilter := by
  obtain ⟨f, compiles, rfl⟩ := map_eq_ok ok
  exact ⟨f, compileFilter_valid compiles, rfl⟩

theorem lawful : Router.Lawful zenohGrammar Matched where
  literal := by
    intro pattern compiled ok literal
    obtain ⟨f, valid, rfl⟩ := compile_spec ok
    exact valid.matched_of_literal literal
  isMatch := by
    intro pattern compiled topic spans ok matched
    obtain ⟨f, valid, rfl⟩ := compile_spec ok
    exact (valid.matched_iff topic).mpr (valid.matches_of_isMatch matched)
  refl := by
    rintro a ⟨pattern, compiled, ok, rfl⟩
    obtain ⟨f, valid, rfl⟩ := compile_spec ok
    exact covers_refl valid.parse_filter
  trans _ _ _ first second := covers_trans first second
  covers _ _ covered matched := matched_of_covers covered matched

end AimDb.Zenoh
