import AimDb.Topic.Text
import AimDb.Zenoh.Greedy
import AimDb.Zenoh.Spans

/-!
# A canonical filter compiled again

No key expression the grammar writes holds a brace, so read as a pattern it has
no captures and its chunks are those of the key expression.
-/

namespace AimDb.Zenoh

open Topic Wildcard

theorem star_mem_mark : '*' ∈ mark := by simp [mark]

theorem classify_chars {text : Str} {chunk : Chunk} (ok : Chunk.classify text = .ok chunk)
    {c : Char} (inside : c ∈ chunk.render) : c ∈ text ∨ c ∈ mark := by
  rcases classify_cases ok with ⟨rfl, rfl⟩ | ⟨rfl, rfl⟩ | ⟨-, rfl⟩ |
    ⟨first, middles, last, rfl, -, -, rfl⟩
  · exact .inl inside
  · exact .inl inside
  · exact .inl inside
  · split at inside
    · obtain rfl : c = '*' := by simpa [Chunk.render] using inside
      exact .inr star_mem_mark
    · rcases mem_of_mem_join inside with inMark | ⟨piece, isKept, inPiece⟩
      · exact .inr inMark
      · apply Or.inl
        apply mem_join _ inPiece
        simp only [keptPieces, List.mem_cons, List.mem_append, List.mem_filter] at isKept ⊢
        tauto

theorem compileChunk_chars {topic : Str} {raw : RawSegment} {chunk : Chunk}
    (ok : compileChunk topic raw = .ok chunk) {c : Char} (inside : c ∈ chunk.render) :
    c ∈ raw.text ∨ c ∈ mark := by
  rw [compileChunk] at ok
  split at ok
  · split at ok
    · cases ok
    · obtain rfl := Except.ok.inj ok
      have star : c = '*' := by
        split at inside <;> simpa [Chunk.render] using inside
      exact .inr (star ▸ star_mem_mark)
  · cases classified : Chunk.classify raw.text with
    | error why => simp [classified, Except.mapError] at ok
    | ok other =>
        obtain rfl : other = chunk := by simpa [classified, Except.mapError] using ok
        exact classify_chars classified inside

/-- Besides separators and wildcards a key expression holds what its chunks do. -/
theorem canonical_chars {chunks : List Chunk} {c : Char} (inside : c ∈ canonical chunks) :
    c = '/' ∨ c = '*' ∨ ∃ chunk ∈ chunks, c ∈ chunk.render := by
  rw [canonical, ← render_normal] at inside
  rcases mem_of_mem_join inside with separator | ⟨piece, isPiece, inPiece⟩
  · exact .inl (List.mem_singleton.mp separator)
  · obtain ⟨chunk, inNormal, rfl⟩ := List.mem_map.mp isPiece
    rcases mem_normal inNormal with rfl | rfl | ⟨isChunk, -⟩
    · exact .inr (.inl (by simpa [Chunk.render] using inPiece))
    · exact .inr (.inl (by simpa [Chunk.render] using inPiece))
    · exact .inr (.inr ⟨chunk, isChunk, inPiece⟩)

theorem compileFilter_braceless {topic : Str} {pattern : TopicPattern} {f : ZenohFilter}
    (parsed : TopicPattern.parse topic = .ok pattern) (compiled : compileFilter pattern = .ok f) :
    ∀ c ∈ f.filter, TopicPattern.isBrace c = false := by
  intro c inside
  rw [compileFilter] at compiled
  obtain ⟨raw, built, compiled⟩ := bind_eq_ok compiled
  obtain ⟨chunks, all, compiled⟩ := bind_eq_ok compiled
  obtain rfl := Except.ok.inj compiled
  rcases canonical_chars inside with rfl | rfl | ⟨chunk, isChunk, inChunk⟩
  · decide
  · decide
  · obtain ⟨segment, isRaw, ok⟩ := exists_left_of_forall₂ (mapM_ok all) isChunk
    rcases compileChunk_chars ok inChunk with inText | inMark
    · have texts := TopicPattern.parse_braceless parsed
      have chars := RawSegments.ofParts_made (fun c => TopicPattern.isBrace c = false)
        (fun text isPart piece isPiece c inPiece =>
          texts text isPart c (mem_of_mem_piece isPiece inPiece).1) built
      exact chars segment isRaw c inText
    · simp only [mark, List.mem_cons, List.not_mem_nil, or_false] at inMark
      rcases inMark with rfl | rfl <;> decide

theorem parse_of_compile {filter : Str} {pattern : TopicPattern} {f : ZenohFilter}
    (plain : ∀ c ∈ filter, TopicPattern.isBrace c = false)
    (parsed : TopicPattern.parse filter = .ok pattern) (compiled : compileFilter pattern = .ok f) :
    parse filter = some f.chunks := by
  rw [TopicPattern.parse_of_plain plain] at parsed
  obtain rfl := Except.ok.inj parsed
  rw [compileFilter] at compiled
  obtain ⟨raw, built, compiled⟩ := bind_eq_ok compiled
  obtain ⟨chunks, all, compiled⟩ := bind_eq_ok compiled
  obtain rfl := Except.ok.inj compiled
  rw [RawSegments.ofParts_text] at built
  obtain rfl := Except.ok.inj built
  rw [parse_eq_some_iff]
  apply (List.forall₂_map_left_iff.mp (mapM_ok all)).imp
  intro text chunk ok
  cases classified : Chunk.classify text with
  | error why => simp [compileChunk, classified, Except.mapError] at ok
  | ok other => simpa [compileChunk, classified, Except.mapError] using ok

theorem isMatch_iff_of_recompile {filter key : Str} {pattern : TopicPattern}
    {compiled : TopicFilter} (plain : ∀ c ∈ filter, TopicPattern.isBrace c = false)
    (parsed : TopicPattern.parse filter = .ok pattern)
    (compiles : zenohGrammar.compile pattern = .ok compiled) (noStar : '*' ∉ key)
    (spans : Spans) :
    (compiled.isMatch key spans).1 = true ↔ Matched filter key := by
  obtain ⟨f, ok, rfl⟩ := map_eq_ok compiles
  have valid := compileFilter_valid ok
  rw [matched_iff_of_parse (parse_of_compile plain parsed ok)]
  change (f.isMatch key spans).1 = true ↔ _
  rw [valid.isMatch_iff noStar, valid.matched_iff]

open Router

/-- The longest key the wire format carries: its length is a `u16`. -/
def keyMax : Nat := 65535

theorem ZenohFilter.Valid.eq_of_literal {f : ZenohFilter} (valid : f.Valid)
    (literal : f.isLiteral = true) {key : Str} (matched : Matched f.filter key) :
    f.filter = key := by
  have texts : ∀ {chunks : List Chunk} {taken : List Str}, chunks.all Chunk.isLiteral = true →
      chunkRules.Matches chunks taken → taken = chunks.map Chunk.render := by
    intro chunks taken all matched
    induction chunks generalizing taken with
    | nil => exact Rules.matches_nil_iff.mp matched
    | cons chunk chunks inductionHypothesis =>
        obtain ⟨head, tail⟩ := Bool.and_eq_true_iff.mp all
        cases chunk with
        | literal text =>
            obtain ⟨t, rest, rfl, takes, behind⟩ :=
              (Rules.matches_take_iff (R := chunkRules) (by intro spans; cases spans)).mp matched
            rw [inductionHypothesis tail behind]
            exact congrArg (· :: _) takes
        | single capture => cases head
        | multi capture => cases head
        | glob pieces => cases head
  rw [valid.matched_iff] at matched
  have chunks := texts literal matched
  have split : f.filter.splitOn '/' = f.chunks.map Chunk.render := by
    rw [valid.splitOn_filter, normal_of_literal literal]
  rw [← split, keyChunks] at chunks
  split at chunks
  · exact absurd chunks.symm (List.splitOn_ne_nil _ _)
  · exact splitOn_injective chunks.symm

theorem isMatch_iff_of_route {route : CompiledRoute} {source key : Str}
    (of : route.Of zenohGrammar source) (noStar : '*' ∉ key) (fits : byteLen key ≤ keyMax)
    (spans : Spans) : (route.isMatch key spans).1 = true ↔ Matched route.filter key := by
  constructor
  · exact lawful.route_matches of
  · intro matched
    obtain ⟨pattern, compiled, names, capture, -, compiles, rfl⟩ := of
    obtain ⟨f, valid, rfl⟩ := compile_spec compiles
    by_cases literal : f.isLiteral = true
    · have same : f.filter = key := valid.eq_of_literal literal matched
      simpa [CompiledRoute.isMatch, CompiledRoute.pattern, ZenohFilter.asTopicFilter, literal]
        using same
    · have found : (f.isMatch key spans).1 = true := (valid.isMatch_iff noStar spans).mpr matched
      have short : byteLen key ≤ 65535 := fits
      simpa [CompiledRoute.isMatch, CompiledRoute.pattern, ZenohFilter.asTopicFilter,
        literal, short]
        using found

def Keyed (route : CompiledRoute) : Prop := ∀ n ∈ route.key, n < maxCaptures

theorem keyed_of_inboundRoute {grammar : TopicGrammar} {link : InboundConnectorLink}
    {route : CompiledRoute} (compiled : inboundRoute grammar link = .ok route) : Keyed route := by
  rw [inboundRoute] at compiled
  obtain ⟨pattern, parsed, compiled⟩ := bind_eq_ok compiled
  obtain ⟨filter, -, compiled⟩ := bind_eq_ok compiled
  simp only at compiled
  split at compiled
  · obtain rfl := Except.ok.inj compiled
    exact fun n isKey => by cases isKey
  · split at compiled
    · rename_i capture n found
      obtain rfl := Except.ok.inj compiled
      intro m isKey
      obtain rfl : n = m := Option.some.inj isKey
      obtain ⟨inside, -⟩ := List.idxOf?_eq_some_iff.mp found
      exact Nat.lt_of_lt_of_le inside (TopicPattern.captureNames_length_le parsed)
    · simp at compiled

theorem route_sliced {route : CompiledRoute} {source : Str} (of : route.Of zenohGrammar source)
    (topic : Str) : Sliced topic (route.isMatch topic .fresh).2 := by
  obtain ⟨pattern, compiled, names, capture, -, compiles, rfl⟩ := of
  obtain ⟨f, -, rfl⟩ := compile_spec compiles
  rw [CompiledRoute.isMatch]
  split
  · exact sliced_fresh topic
  · rename_i m isMatcher
    obtain rfl : f.asTopicFilter = m := by
      simp only [CompiledRoute.pattern] at isMatcher
      split at isMatcher
      · cases isMatcher
      · exact Option.some.inj isMatcher
    split
    · exact f.isMatch_sliced (sliced_fresh topic)
    · exact sliced_fresh topic

theorem full_of_keyOf {route : CompiledRoute} {table : KeyTable} {topic : Str} {spans : Spans}
    (keyed : Keyed route) (fits : byteLen topic ≤ keyMax) (sliced : Sliced topic spans)
    (turned : (route.keyOf table topic spans).1 = none) : table.Full := by
  rw [CompiledRoute.keyOf] at turned
  split at turned
  · cases turned
  · rename_i n isKey
    have inside : n < maxCaptures := keyed n isKey
    rw [Vector.getElem?_eq_getElem inside] at turned
    obtain ⟨start, stop, span, ordered, first, second⟩ := sliced _ (Vector.getElem_mem inside)
    obtain ⟨value, cut⟩ := first.getBytes second ordered
    have startFits : start < UInt16.size := Nat.lt_succ_of_le (first.le.trans fits)
    have stopFits : stop < UInt16.size := Nat.lt_succ_of_le (second.le.trans fits)
    rw [span] at turned
    have cutHere : getBytes topic (UInt16.ofNat start).toNat (UInt16.ofNat stop).toNat =
        some value := by
      rw [UInt16.toNat_ofNat_of_lt' startFits, UInt16.toNat_ofNat_of_lt' stopFits]
      exact cut
    simp only [cutHere, Option.map_eq_none_iff] at turned
    exact KeyTable.full_of_key turned

end AimDb.Zenoh
