import AimDb.Topic.Captures
import AimDb.Wildcard.Rules
import AimDb.Zenoh.Matching

/-!
# The matcher finds every match

Each `**` stops at the first place where the segment behind it fits.  A verbatim
chunk is taken by name, so stopping early loses no match.
-/

namespace AimDb.Zenoh

open Topic Wildcard

theorem named : chunkRules.Named := by
  intro chunk text other takes fixed takesOther
  cases chunk with
  | literal literal => exact Eq.trans takesOther (Eq.symm takes)
  | single capture => exact absurd takes fixed
  | multi capture => cases takes
  | glob pieces => exact absurd takes.1 fixed

theorem At.eq_none {topic : Str} {position : Option Nat} (left : At topic position []) :
    position = none := by
  cases position with
  | none => rfl
  | some p =>
      obtain ⟨before, rest, -, -, none⟩ := left
      exact absurd none.symm (List.splitOn_ne_nil _ _)

theorem At.exists_some {topic : Str} {position : Option Nat} {chunk : Str} {chunks : List Str}
    (left : At topic position (chunk :: chunks)) : ∃ p, position = some p := by
  cases position with
  | none => cases left
  | some p => exact ⟨p, rfl⟩

theorem fits_of_takes {chunk : Chunk} {text : Str} (valid : chunk.Valid) (takes : chunk.Takes text)
    (here : Nat) (spans : Spans) : (ZenohFilter.chunkFits text here spans chunk).1 = true := by
  cases chunk with
  | literal literal =>
      obtain rfl : text = literal := takes
      exact beq_self_eq_true text
  | single capture =>
      have plain : startsWith '@' text = false := takes
      simp [ZenohFilter.chunkFits, plain]
  | multi capture => cases takes
  | glob pieces =>
      obtain ⟨first, middles, last, rfl, -⟩ := valid
      obtain ⟨plain, fits⟩ := takes
      simp only [ZenohFilter.chunkFits, plain, globMatches_iff.mpr fits]
      rfl

theorem segmentAt_of_takes {topic : Str} {segment : List Chunk} {taken rest : List Str}
    {position : Option Nat} (spans : Spans) (valid : ∀ chunk ∈ segment, chunk.Valid)
    (left : At topic position (taken ++ rest)) (takes : List.Forall₂ Chunk.Takes segment taken) :
    ∃ after, (ZenohFilter.segmentAt topic segment position spans).1 = some after ∧
      At topic after rest := by
  induction takes generalizing position spans with
  | nil => exact ⟨position, rfl, left⟩
  | @cons chunk text segment taken takesHead _ inductionHypothesis =>
      obtain ⟨p, rfl⟩ := left.exists_some
      obtain ⟨more, same, behind⟩ := left.chunkAt
      obtain ⟨rfl, rfl⟩ := List.cons.inj same
      have fits := fits_of_takes (valid chunk (by simp)) takesHead p spans
      simp only [ZenohFilter.segmentAt, fits, if_true]
      exact inductionHypothesis _ (fun other later => valid other (by simp [later])) behind

section Gap

variable {topic : Str} {segment pattern : List Chunk} {last : Bool}

theorem attempt_of_matches {here : Option Nat} {chunks : List Str} (spans : Spans)
    (valid : ∀ chunk ∈ segment, chunk.Valid)
    (single : ∀ chunk ∈ segment, ¬ chunkRules.Spans chunk)
    (isLast : last = true → pattern = []) (left : At topic here chunks)
    (matched : chunkRules.Matches (segment ++ pattern) chunks) :
    ((ZenohFilter.segmentAt topic segment here spans).1.filter
      fun after => !last || after.isNone) ≠ none := by
  obtain ⟨taken, rest, rfl, takes, tail⟩ := (Rules.matches_block_iff single).mp matched
  obtain ⟨after, found, reached⟩ := segmentAt_of_takes spans valid left takes
  rw [found, Option.filter_some]
  cases final : last with
  | false => simp
  | true =>
      rw [isLast final, Rules.matches_nil_iff] at tail
      rw [tail] at reached
      rw [reached.eq_none]
      simp

theorem gapFrom_of_matches {multi : Chunk} (capture : Option Nat) (gapStart gapEnd : Nat)
    {here : Option Nat} (spans : Spans) {chunks : List Str} (isMulti : chunkRules.Spans multi)
    (valid : ∀ chunk ∈ segment, chunk.Valid)
    (single : ∀ chunk ∈ segment, ¬ chunkRules.Spans chunk)
    (isLast : last = true ↔ pattern = [])
    (next : ∀ chunk ∈ pattern.head?, chunkRules.Spans chunk)
    (left : At topic here chunks)
    (matched : chunkRules.Matches (multi :: (segment ++ pattern)) chunks) :
    ∃ after rest, (ZenohFilter.gapFrom topic segment last capture gapStart gapEnd here spans).1 =
      some after ∧ At topic after rest ∧ chunkRules.Matches pattern rest := by
  induction gapEnd, here, spans using ZenohFilter.gapFrom.induct topic segment last capture gapStart
    generalizing chunks with
  | case1 gapEnd here spans attempt fitted =>
      rename_i fits
      unfold ZenohFilter.gapFrom
      simp only [attempt] at fits
      simp only [fits]
      obtain ⟨segmentFits, allowed⟩ := Option.filter_eq_some_iff.mp fits
      obtain ⟨taken, rest, rfl, takes, reached⟩ := segmentAt_spec valid left segmentFits
      refine ⟨fitted, rest, rfl, reached, ?_⟩
      apply Rules.Matches.of_earliest named isMulti single next _ takes matched
      intro none
      have final : last = true := isLast.mpr none
      obtain rfl : fitted = Option.none := by simpa [final] using allowed
      exact reached
  | case2 gapEnd spans attempt =>
      rename_i stuck
      have empty : chunks = [] := left
      subst empty
      have behind := (Rules.matches_span_nil_iff isMulti).mp matched
      exact absurd stuck (attempt_of_matches _ valid single isLast.mp left behind)
  | case3 gapEnd spans p verbatim attempt =>
      rename_i stuck
      obtain ⟨more, rfl, -⟩ := left.chunkAt
      rcases (Rules.matches_span_cons_iff isMulti).mp matched with behind | ⟨absorbs, -⟩
      · exact absurd stuck (attempt_of_matches _ valid single isLast.mp left behind)
      · rw [show startsWith '@' _ = false from absorbs] at verbatim
        cases verbatim
  | case4 gapEnd spans p plain attempt =>
      rename_i stuck inductionHypothesis
      unfold ZenohFilter.gapFrom
      simp only [attempt] at stuck
      simp only [stuck, plain, Bool.false_eq_true, if_false]
      obtain ⟨more, rfl, after⟩ := left.chunkAt
      rcases (Rules.matches_span_cons_iff isMulti).mp matched with behind | ⟨-, rest⟩
      · exact absurd stuck (attempt_of_matches _ valid single isLast.mp left behind)
      · exact inductionHypothesis after rest

end Gap

theorem Behind.isEmpty_iff {segments : List (List Chunk)} {chunks : List Chunk}
    (behind : Behind segments chunks) : segments.isEmpty = true ↔ chunks = [] := by
  rcases behind with ⟨rfl, rfl⟩ | ⟨multi, rest, -, rfl, rfl⟩
  · simp
  · simp [List.splitOnP_ne_nil]

theorem Behind.spans_head {segments : List (List Chunk)} {chunks : List Chunk}
    (behind : Behind segments chunks) : ∀ chunk ∈ chunks.head?, chunkRules.Spans chunk := by
  rcases behind with ⟨-, rfl⟩ | ⟨multi, rest, spans, rfl, -⟩
  · simp
  · simpa using spans

theorem matchSegments_of_matches {topic : Str} {segments : List (List Chunk)}
    {multis : List (Option Nat)} {position : Option Nat} {spans : Spans} {pattern : List Chunk}
    {chunks : List Str} (valid : ∀ chunk ∈ pattern, chunk.Valid)
    (behind : Behind segments pattern)
    (left : At topic position chunks) (matched : chunkRules.Matches pattern chunks) :
    (ZenohFilter.matchSegments topic segments multis position spans).1 = true := by
  induction segments generalizing multis position spans pattern chunks with
  | nil =>
      obtain rfl := behind.isEmpty_iff.mp rfl
      rw [Rules.matches_nil_iff] at matched
      subst matched
      rw [left.eq_none]
      rfl
  | cons segment segments inductionHypothesis =>
      rcases behind with ⟨impossible, -⟩ | ⟨multi, rest, isMulti, rfl, split⟩
      · cases impossible
      · obtain ⟨singles, pattern, rfl, tailBehind⟩ := splitOnP_cons_cases split.symm
        have validSegment : ∀ chunk ∈ segment, chunk.Valid :=
          fun chunk inSegment => valid chunk (by simp [inSegment])
        obtain ⟨after, rest, gap, reached, tail⟩ := gapFrom_of_matches multis.head?.join
          (position.getD (byteLen topic)) (position.getD (byteLen topic)) spans isMulti validSegment
          singles tailBehind.isEmpty_iff tailBehind.spans_head left matched
        simp only [ZenohFilter.matchSegments]
        split
        · rename_i next stuck
          rw [stuck] at gap
          cases gap
        · rename_i other next found
          obtain rfl : other = after := by simpa [found] using gap
          exact inductionHypothesis (fun chunk later => valid chunk (by simp [later])) tailBehind
            reached tail

theorem ZenohFilter.Valid.isMatch_of_matches {f : ZenohFilter} (valid : f.Valid) {topic : Str}
    (plain : '*' ∉ topic) (matched : chunkRules.Matches f.chunks (keyChunks topic))
    (spans : Spans) : (f.isMatch topic spans).1 = true := by
  have noStar : topic.contains '*' = false := by simpa using plain
  cases split : f.chunks.splitOnP Chunk.isMulti with
  | nil => exact absurd split (List.splitOnP_ne_nil _ _)
  | cons segment segments =>
      obtain ⟨singles, pattern, whole, behind⟩ := splitOnP_cons_cases split
      have validAll : ∀ chunk ∈ segment ++ pattern, chunk.Valid := whole ▸ valid.valid
      rw [whole] at matched
      obtain ⟨taken, rest, chunks, takes, tail⟩ := (Rules.matches_block_iff singles).mp matched
      obtain ⟨after, found, reached⟩ := segmentAt_of_takes spans
        (fun chunk inSegment => validAll chunk (by simp [inSegment])) (chunks ▸ at_start topic)
        takes
      simp only [ZenohFilter.isMatch, noStar, Bool.false_eq_true, if_false, split,
        List.headD_cons, List.tail_cons]
      split
      · rename_i next stuck
        rw [stuck] at found
        cases found
      · rename_i other next first
        obtain rfl : other = after := Option.some.inj ((congrArg Prod.fst first).symm.trans found)
        exact matchSegments_of_matches (fun chunk inTail => validAll chunk (by simp [inTail]))
          behind reached tail

/-- The matcher of a compiled filter agrees with the key expression on every key
without wildcards. -/
theorem ZenohFilter.Valid.isMatch_iff {f : ZenohFilter} (valid : f.Valid) {topic : Str}
    (plain : '*' ∉ topic) (spans : Spans) :
    (f.isMatch topic spans).1 = true ↔ Matched f.filter topic := by
  rw [valid.matched_iff]
  constructor
  · exact valid.matches_of_isMatch
  · exact fun matched => valid.isMatch_of_matches plain matched spans

def Chunk.capture : Chunk → Option Nat
  | .single capture => capture
  | .multi capture => capture
  | _ => none

theorem classify_capture {text : Str} {chunk : Chunk} (ok : Chunk.classify text = .ok chunk) :
    chunk.capture = none := by
  rcases classify_cases ok with ⟨-, rfl⟩ | ⟨-, rfl⟩ | ⟨-, rfl⟩ |
    ⟨first, middles, last, -, -, -, rfl⟩
  · rfl
  · rfl
  · rfl
  · split <;> rfl

theorem compileChunk_capture {topic : Str} {raw : RawSegment} {chunk : Chunk}
    (ok : compileChunk topic raw = .ok chunk) : chunk.capture = raw.capture.map Prod.fst := by
  rw [compileChunk] at ok
  split at ok
  · rename_i n isMulti numbered
    split at ok
    · cases ok
    · obtain rfl := Except.ok.inj ok
      rw [numbered]
      split <;> rfl
  · rename_i plain
    cases classified : Chunk.classify raw.text with
    | error why => simp [classified, Except.mapError] at ok
    | ok other =>
        obtain rfl : other = chunk := by simpa [classified, Except.mapError] using ok
        rw [classify_capture classified, plain]
        rfl

theorem compileFilter_captures {pattern : TopicPattern} {f : ZenohFilter}
    (compiled : compileFilter pattern = .ok f) :
    captures Chunk.capture f.chunks = List.range pattern.captureNames.length := by
  rw [compileFilter] at compiled
  obtain ⟨raw, built, compiled⟩ := bind_eq_ok compiled
  obtain ⟨chunks, all, compiled⟩ := bind_eq_ok compiled
  obtain rfl := Except.ok.inj compiled
  rw [← RawSegments.ofParts_numbers built]
  exact captures_of_compiled compileChunk_capture (mapM_ok all)

theorem compileFilter_slots {topic : Str} {pattern : TopicPattern} {f : ZenohFilter}
    (parsed : TopicPattern.parse topic = .ok pattern) (compiled : compileFilter pattern = .ok f) :
    Slots Chunk.capture f.chunks :=
  slots_of_parse parsed (compileFilter_captures compiled)

theorem chunkFits_frame {text : Str} {here n : Nat} {spans : Spans} {chunk : Chunk}
    (other : n ∉ chunk.capture) :
    (ZenohFilter.chunkFits text here spans chunk).2[n]? = spans[n]? := by
  cases chunk with
  | single capture => exact capture_of_ne other
  | _ => rfl

theorem segmentAt_frame {topic : Str} {segment : List Chunk} {position : Option Nat}
    {spans : Spans} {n : Nat} (other : n ∉ captures Chunk.capture segment) :
    (ZenohFilter.segmentAt topic segment position spans).2[n]? = spans[n]? := by
  induction segment generalizing position spans with
  | nil => simp [ZenohFilter.segmentAt]
  | cons chunk segment inductionHypothesis =>
      rw [captures_cons, List.mem_append, not_or] at other
      have kept : ∀ text here, (ZenohFilter.chunkFits text here spans chunk).2[n]? = spans[n]? :=
        fun text here => chunkFits_frame (by simpa using other.1)
      cases position with
      | none => rfl
      | some here =>
          simp only [ZenohFilter.segmentAt]
          split
          · rw [inductionHypothesis other.2, kept]
          · exact kept _ _

theorem attempt_frame {topic : Str} {segment : List Chunk} {here : Option Nat} {spans : Spans}
    {capture : Option Nat} {start stop n : Nat} (notGap : n ∉ capture)
    (other : n ∉ captures Chunk.capture segment) :
    (ZenohFilter.segmentAt topic segment here (spans.capture capture start stop)).2[n]? =
      spans[n]? := by
  rw [segmentAt_frame other, capture_of_ne notGap]

theorem gapFrom_frame {topic : Str} {segment : List Chunk} {last : Bool} {capture : Option Nat}
    {gapStart gapEnd : Nat} {here : Option Nat} {spans : Spans} {n : Nat} (notGap : n ∉ capture)
    (other : n ∉ captures Chunk.capture segment) :
    (ZenohFilter.gapFrom topic segment last capture gapStart gapEnd here spans).2[n]? =
      spans[n]? := by
  induction gapEnd, here, spans using ZenohFilter.gapFrom.induct topic segment last capture gapStart
    with
  | case1 gapEnd here spans attempt fitted =>
      rename_i fits
      have kept : attempt.2[n]? = spans[n]? := attempt_frame notGap other
      unfold ZenohFilter.gapFrom
      simp only [attempt] at fits kept
      simp only [fits, kept]
  | case2 gapEnd spans attempt =>
      rename_i stuck
      have kept : attempt.2[n]? = spans[n]? := attempt_frame notGap other
      unfold ZenohFilter.gapFrom
      simp only [attempt] at stuck kept
      simp only [stuck, kept]
  | case3 gapEnd spans p verbatim attempt =>
      rename_i stuck
      have kept : attempt.2[n]? = spans[n]? := attempt_frame notGap other
      unfold ZenohFilter.gapFrom
      simp only [attempt] at stuck kept
      simp only [stuck, verbatim, if_true, kept]
  | case4 gapEnd spans p plain attempt =>
      rename_i stuck inductionHypothesis
      have kept : attempt.2[n]? = spans[n]? := attempt_frame notGap other
      unfold ZenohFilter.gapFrom
      simp only [attempt] at stuck kept inductionHypothesis
      simp only [stuck, plain, Bool.false_eq_true, if_false, inductionHypothesis, kept]

end AimDb.Zenoh
