import Mathlib.Data.List.Forall2
import AimDb.Zenoh.KeyExpr

/-!
# The canonical key expression of a pattern

It parses back to chunks that match the same keys as the compiled ones.
-/

namespace AimDb.Zenoh

open Topic Wildcard

def Chunk.render : Chunk → Str
  | .literal text => text
  | .single _ => ['*']
  | .multi _ => ['*', '*']
  | .glob pieces => join mark pieces

def Chunk.anonymous : Chunk → Chunk
  | .single _ => .single none
  | .multi _ => .multi none
  | chunk => chunk

theorem mem_of_mem_join {separator : Str} {pieces : List Str} {c : Char}
    (inside : c ∈ join separator pieces) :
    c ∈ separator ∨ ∃ piece ∈ pieces, c ∈ piece := by
  induction pieces with
  | nil => cases inside
  | cons head more inductionHypothesis =>
      cases more with
      | nil => exact .inr ⟨head, by simp, by simpa [join] using inside⟩
      | cons next more =>
          rw [join, List.intercalate_cons_cons] at inside
          rcases List.mem_append.mp inside with front | tail
          · rcases List.mem_append.mp front with inHead | inMark
            · exact .inr ⟨head, by simp, inHead⟩
            · exact .inl inMark
          · rcases inductionHypothesis tail with inMark | ⟨piece, isPiece, inPiece⟩
            · exact .inl inMark
            · exact .inr ⟨piece, List.mem_cons_of_mem _ isPiece, inPiece⟩

theorem GlobValid.keptPieces_eq {first last : Str} {middles : List Str}
    (valid : GlobValid first middles last) :
    keptPieces first middles last = first :: (middles ++ [last]) := by
  rw [keptPieces, List.filter_eq_self.mpr]
  intro middle isMiddle
  simpa using valid.nonempty middle isMiddle

theorem GlobValid.classify_join {first last : Str} {middles : List Str}
    (valid : GlobValid first middles last) :
    Chunk.classify (join mark (first :: (middles ++ [last]))) =
      .ok (.glob (first :: (middles ++ [last]))) := by
  have dollar := dollar_mem_join first last middles
  have star := star_mem_join first last middles
  have verbatim := startsWith_join first last middles
  have hash : ∀ c ∈ join mark (first :: (middles ++ [last])), c ≠ '#' ∧ c ≠ '?' := by
    intro c inside
    rcases mem_of_mem_join inside with inMark | ⟨piece, isPiece, inPiece⟩
    · simp only [mark, List.mem_cons, List.not_mem_nil, or_false] at inMark
      rcases inMark with rfl | rfl <;> decide
    · have plain := valid.plain piece isPiece c inPiece
      exact ⟨fun same => plain (.inl same), fun same => plain (.inr (.inl same))⟩
  have pieces : splitMark (join mark (first :: (middles ++ [last]))) =
      first :: (middles ++ [last]) := by
    apply splitMark_join (by simp)
    exact fun piece isPiece inside => valid.plain piece isPiece '$' inside (.inr (.inr (.inr rfl)))
  generalize join mark (first :: (middles ++ [last])) = text at *
  have text_ne : text ≠ [] ∧ text ≠ ['*'] ∧ text ≠ ['*', '*'] := by
    refine ⟨?_, ?_, ?_⟩ <;> rintro rfl <;> simp at dollar
  have noHash : (text.any fun c => c == '#' || c == '?') = false := by
    simpa [List.any_eq_false] using hash
  have marked : (text.any fun c => c == '*' || c == '$') = true :=
    List.any_eq_true.mpr ⟨'*', star, rfl⟩
  have noPiece : ∀ c, IsSpecial c →
      ((first :: (middles ++ [last])).any fun p => p.contains c) = false := by
    intro c special
    rw [List.any_eq_false]
    intro piece isPiece inside
    exact valid.plain piece isPiece c (by simpa using inside) special
  have some : (first :: (middles ++ [last])).all List.isEmpty = false := by
    rw [Bool.eq_false_iff]
    intro empty
    have gone : ∀ piece ∈ first :: (middles ++ [last]), piece = [] :=
      fun piece isPiece => List.isEmpty_iff.mp (List.all_eq_true.mp empty piece isPiece)
    rcases valid.text with firstText | middlesText | lastText
    · exact firstText (gone first (by simp))
    · obtain ⟨middle, isMiddle⟩ := List.exists_mem_of_ne_nil _ middlesText
      exact valid.nonempty middle isMiddle (gone middle (by simp [isMiddle]))
    · exact lastText (gone last (by simp))
  rw [Chunk.classify, if_neg text_ne.1, if_neg text_ne.2.1, if_neg text_ne.2.2]
  simp only [noHash, marked, verbatim, valid.wild, pieces, noPiece '$' (.inr (.inr (.inr rfl))),
    noPiece '*' (.inr (.inr (.inl rfl))), Bool.not_true, Bool.false_eq_true, if_false]
  rw [retainPieces_eq]
  change (if (keptPieces first middles last).all List.isEmpty = true then _
    else Except.ok (Chunk.glob (keptPieces first middles last))) = _
  rw [valid.keptPieces_eq, some]
  rfl

theorem Chunk.Valid.classify_render {chunk : Chunk} (valid : chunk.Valid) :
    Chunk.classify chunk.render = .ok chunk.anonymous := by
  cases chunk with
  | single capture => rfl
  | multi capture => rfl
  | glob pieces =>
      obtain ⟨first, middles, last, rfl, globValid⟩ := valid
      exact globValid.classify_join
  | literal text =>
      obtain ⟨nonempty, plain⟩ := valid
      have free : ∀ c, IsSpecial c → c ∉ text :=
        fun c special inside => plain c inside special
      have star := free '*' (.inr (.inr (.inl rfl)))
      have notWild : text ≠ ['*'] ∧ text ≠ ['*', '*'] := by
        constructor <;> rintro rfl <;> simp at star
      have noHash : (text.any fun c => c == '#' || c == '?') = false := by
        rw [List.any_eq_false]
        intro c inside
        have other := plain c inside
        simp_all [IsSpecial]
      have noMark : (text.any fun c => c == '*' || c == '$') = false := by
        rw [List.any_eq_false]
        intro c inside
        have other := plain c inside
        simp_all [IsSpecial]
      rw [Chunk.render, Chunk.classify, if_neg nonempty, if_neg notWild.1, if_neg notWild.2]
      simp only [noHash, noMark, Bool.false_eq_true, if_false, Bool.not_false, if_true]
      rfl

theorem Chunk.Valid.alike_render {chunk : Chunk} (valid : chunk.Valid) :
    Rules.Alike keyExpr chunkRules chunk.render chunk := by
  have alike := classify_alike valid.classify_render
  cases chunk <;> exact alike

/-- What `compile` leaves: chunks that `classify` makes, and their canonical
spelling. -/
structure ZenohFilter.Valid (f : ZenohFilter) : Prop where
  filter : f.filter = canonical f.chunks
  nonempty : f.chunks ≠ []
  valid : ∀ chunk ∈ f.chunks, chunk.Valid
  cut : ∀ chunk ∈ f.chunks, '/' ∉ chunk.render

theorem classify_cut {text : Str} {chunk : Chunk} (cut : '/' ∉ text)
    (ok : Chunk.classify text = .ok chunk) : '/' ∉ chunk.render := by
  rcases classify_cases ok with ⟨-, rfl⟩ | ⟨-, rfl⟩ | ⟨-, rfl⟩ |
    ⟨first, middles, last, rfl, -, -, rfl⟩
  · simp [Chunk.render]
  · simp [Chunk.render]
  · exact cut
  · split
    · simp [Chunk.render]
    · intro inside
      rcases mem_of_mem_join inside with inMark | ⟨piece, isKept, inPiece⟩
      · simp [mark] at inMark
      · apply cut
        apply mem_join _ inPiece
        simp only [keptPieces, List.mem_cons, List.mem_append, List.mem_filter] at isKept ⊢
        tauto

theorem compileChunk_spec {topic : Str} {raw : RawSegment} {chunk : Chunk}
    (cut : '/' ∉ raw.text) (ok : compileChunk topic raw = .ok chunk) :
    chunk.Valid ∧ '/' ∉ chunk.render := by
  rw [compileChunk] at ok
  split at ok
  · split at ok
    · cases ok
    · obtain rfl := Except.ok.inj ok
      split <;> exact ⟨trivial, by simp [Chunk.render]⟩
  · cases classified : Chunk.classify raw.text with
    | error why => simp [classified, Except.mapError] at ok
    | ok other =>
        obtain rfl : other = chunk := by simpa [classified, Except.mapError] using ok
        exact ⟨classify_valid classified, classify_cut cut classified⟩

theorem mapM_ok {α β : Type} {f : α → Except String β} {xs : List α} {ys : List β}
    (ok : xs.mapM f = .ok ys) : List.Forall₂ (fun x y => f x = .ok y) xs ys := by
  induction xs generalizing ys with
  | nil =>
      obtain rfl : [] = ys := by simpa [pure, Except.pure] using ok
      exact .nil
  | cons x xs inductionHypothesis =>
      rw [List.mapM_cons] at ok
      obtain ⟨y, head, ok⟩ := bind_eq_ok ok
      obtain ⟨more, tail, ok⟩ := bind_eq_ok ok
      obtain rfl := Except.ok.inj ok
      exact .cons head (inductionHypothesis tail)

theorem exists_left_of_forall₂ {α β : Type} {R : α → β → Prop} {xs : List α}
    {ys : List β}
    (paired : List.Forall₂ R xs ys) {y : β} (isRight : y ∈ ys) : ∃ x ∈ xs, R x y := by
  induction paired with
  | nil => cases isRight
  | @cons x head xs ys related _ inductionHypothesis =>
      rcases List.mem_cons.mp isRight with rfl | later
      · exact ⟨x, by simp, related⟩
      · obtain ⟨other, isLeft, otherRelated⟩ := inductionHypothesis later
        exact ⟨other, by simp [isLeft], otherRelated⟩

theorem compileFilter_valid {pattern : TopicPattern} {f : ZenohFilter}
    (compiled : compileFilter pattern = .ok f) : f.Valid := by
  rw [compileFilter] at compiled
  obtain ⟨raw, built, compiled⟩ := bind_eq_ok compiled
  obtain ⟨chunks, all, compiled⟩ := bind_eq_ok compiled
  obtain rfl := Except.ok.inj compiled
  have paired := mapM_ok all
  have each : ∀ chunk ∈ chunks, chunk.Valid ∧ '/' ∉ chunk.render := by
    intro chunk isChunk
    obtain ⟨segment, isRaw, ok⟩ := exists_left_of_forall₂ paired isChunk
    exact compileChunk_spec (RawSegments.ofParts_cut built segment isRaw) ok
  refine ⟨rfl, ?_, fun chunk isChunk => (each chunk isChunk).1,
    fun chunk isChunk => (each chunk isChunk).2⟩
  rintro (rfl : chunks = [])
  apply RawSegments.ofParts_ne_nil built
  exact List.eq_nil_of_length_eq_zero paired.length_eq

def wildcardRun (singles : Nat) (multi : Bool) : List Chunk :=
  List.replicate singles (.single none) ++ if multi then [.multi none] else []

def normal : List Chunk → Nat → Bool → List Chunk
  | [], singles, multi => wildcardRun singles multi
  | .single _ :: chunks, singles, multi => normal chunks (singles + 1) multi
  | .multi _ :: chunks, singles, _ => normal chunks singles true
  | .literal text :: chunks, singles, multi =>
      wildcardRun singles multi ++ .literal text :: normal chunks 0 false
  | .glob pieces :: chunks, singles, multi =>
      wildcardRun singles multi ++ .glob pieces :: normal chunks 0 false

theorem render_wildcardRun (singles : Nat) (multi : Bool) :
    (wildcardRun singles multi).map Chunk.render = flush singles multi := by
  cases multi <;> simp [wildcardRun, flush, Chunk.render]

theorem render_normal (chunks : List Chunk) (singles : Nat) (multi : Bool) :
    (normal chunks singles multi).map Chunk.render = canonicalFrom chunks singles multi := by
  induction chunks generalizing singles multi with
  | nil => exact render_wildcardRun singles multi
  | cons chunk chunks inductionHypothesis =>
      cases chunk with
      | single capture => exact inductionHypothesis (singles + 1) multi
      | multi capture => exact inductionHypothesis singles true
      | literal text =>
          rw [normal, canonicalFrom, List.map_append, List.map_cons, render_wildcardRun,
            inductionHypothesis]
          rfl
      | glob pieces =>
          rw [normal, canonicalFrom, List.map_append, List.map_cons, render_wildcardRun,
            inductionHypothesis]
          rfl

theorem mem_wildcardRun {singles : Nat} {multi : Bool} {chunk : Chunk}
    (inRun : chunk ∈ wildcardRun singles multi) :
    chunk = .single none ∨ chunk = .multi none := by
  rcases List.mem_append.mp inRun with single | last
  · exact .inl (List.eq_of_mem_replicate single)
  · cases multi with
    | false => cases last
    | true => exact .inr (List.mem_singleton.mp last)

theorem mem_normal {chunks : List Chunk} {singles : Nat} {multi : Bool} {chunk : Chunk}
    (inNormal : chunk ∈ normal chunks singles multi) :
    chunk = .single none ∨ chunk = .multi none ∨ chunk ∈ chunks ∧
        chunk.anonymous = chunk := by
  induction chunks generalizing singles multi with
  | nil => exact (mem_wildcardRun inNormal).imp_right .inl
  | cons head chunks inductionHypothesis =>
      have later : ∀ {singles multi}, chunk ∈ normal chunks singles multi →
          chunk = .single none ∨ chunk = .multi none ∨
            chunk ∈ head :: chunks ∧ chunk.anonymous = chunk := by
        intro singles multi inNormal
        rcases inductionHypothesis inNormal with single | multi | ⟨isChunk, anonymous⟩
        · exact .inl single
        · exact .inr (.inl multi)
        · exact .inr (.inr ⟨List.mem_cons_of_mem _ isChunk, anonymous⟩)
      cases head with
      | single capture => exact later inNormal
      | multi capture => exact later inNormal
      | literal text =>
          rcases List.mem_append.mp inNormal with run | rest
          · exact (mem_wildcardRun run).imp_right .inl
          · rcases List.mem_cons.mp rest with rfl | rest
            · exact .inr (.inr ⟨by simp, rfl⟩)
            · exact later rest
      | glob pieces =>
          rcases List.mem_append.mp inNormal with run | rest
          · exact (mem_wildcardRun run).imp_right .inl
          · rcases List.mem_cons.mp rest with rfl | rest
            · exact .inr (.inr ⟨by simp, rfl⟩)
            · exact later rest

theorem normal_eq_nil_iff {chunks : List Chunk} {singles : Nat} {multi : Bool} :
    normal chunks singles multi = [] ↔ chunks = [] ∧ singles = 0 ∧ multi = false := by
  induction chunks generalizing singles multi with
  | nil => cases multi <;> simp [normal, wildcardRun]
  | cons head chunks inductionHypothesis => cases head <;> simp [normal, inductionHypothesis]

theorem same_wildcardRun_single (capture : Option Nat) (chunks : List Chunk) (singles : Nat)
    (multi : Bool) :
    chunkRules.Same (wildcardRun singles multi ++ .single capture :: chunks)
      (wildcardRun (singles + 1) multi ++ chunks) := by
  rw [wildcardRun, wildcardRun, List.replicate_succ', List.append_assoc, List.append_assoc,
    List.append_assoc]
  apply Rules.Same.append
  have anonymous : ∀ rest, chunkRules.Same (.single capture :: rest) (.single none :: rest) :=
    fun rest => Rules.matches_congr_head rest Iff.rfl fun _ => Iff.rfl
  cases multi with
  | false => exact anonymous chunks
  | true =>
      apply Rules.Same.trans _ (anonymous _)
      exact Rules.same_span_any chunks rfl (fun spans => by cases spans) fun _ => Iff.rfl

theorem same_wildcardRun_multi (capture : Option Nat) (chunks : List Chunk) (singles : Nat)
    (multi : Bool) :
    chunkRules.Same (wildcardRun singles multi ++ .multi capture :: chunks)
      (wildcardRun singles true ++ chunks) := by
  rw [wildcardRun, wildcardRun, List.append_assoc, List.append_assoc]
  apply Rules.Same.append
  have anonymous : chunkRules.Same (.multi capture :: chunks) (.multi none :: chunks) :=
    Rules.matches_congr_head chunks (iff_of_true rfl rfl) fun _ => Iff.rfl
  cases multi with
  | false => exact anonymous
  | true => exact (Rules.same_span_span chunks rfl rfl).trans anonymous

theorem same_normal (chunks : List Chunk) (singles : Nat) (multi : Bool) :
    chunkRules.Same (wildcardRun singles multi ++ chunks) (normal chunks singles multi) := by
  induction chunks generalizing singles multi with
  | nil =>
      rw [List.append_nil]
      exact Rules.Same.refl _
  | cons head chunks inductionHypothesis =>
      have behind : chunkRules.Same chunks (normal chunks 0 false) := inductionHypothesis 0 false
      cases head with
      | single capture =>
          apply (same_wildcardRun_single capture chunks singles multi).trans
          exact inductionHypothesis (singles + 1) multi
      | multi capture =>
          apply (same_wildcardRun_multi capture chunks singles multi).trans
          exact inductionHypothesis singles true
      | literal text => exact (behind.cons _).append _
      | glob pieces => exact (behind.cons _).append _

namespace ZenohFilter.Valid

variable {f : ZenohFilter}

theorem normal_valid (valid : f.Valid) {chunk : Chunk}
    (inNormal : chunk ∈ normal f.chunks 0 false) :
    chunk.Valid ∧ '/' ∉ chunk.render ∧ chunk.anonymous = chunk := by
  rcases mem_normal inNormal with rfl | rfl | ⟨isChunk, anonymous⟩
  · exact ⟨trivial, by simp [Chunk.render], rfl⟩
  · exact ⟨trivial, by simp [Chunk.render], rfl⟩
  · exact ⟨valid.valid chunk isChunk, valid.cut chunk isChunk, anonymous⟩

theorem splitOn_filter (valid : f.Valid) :
    f.filter.splitOn '/' = (normal f.chunks 0 false).map Chunk.render := by
  rw [valid.filter, canonical, ← render_normal, join]
  apply List.splitOn_intercalate
  · intro text isText
    obtain ⟨chunk, inNormal, rfl⟩ := List.mem_map.mp isText
    exact (valid.normal_valid inNormal).2.1
  · simp [normal_eq_nil_iff, valid.nonempty]

theorem matched_iff (valid : f.Valid) (key : Str) :
    Matched f.filter key ↔ chunkRules.Matches f.chunks (keyChunks key) := by
  have alike : List.Forall₂ (Rules.Alike keyExpr chunkRules)
      ((normal f.chunks 0 false).map Chunk.render) (normal f.chunks 0 false) := by
    rw [List.forall₂_map_left_iff, List.forall₂_same]
    exact fun chunk inNormal => (valid.normal_valid inNormal).1.alike_render
  rw [Matched, valid.splitOn_filter,
    Rules.matches_congr (R := keyExpr) (T := chunkRules) (fun _ => Iff.rfl) alike]
  exact (same_normal f.chunks 0 false (keyChunks key)).symm

end ZenohFilter.Valid

theorem mapM_eq_some_iff {α β : Type} {f : α → Option β} {xs : List α} {ys : List β} :
    xs.mapM f = some ys ↔ List.Forall₂ (fun x y => f x = some y) xs ys := by
  induction xs generalizing ys with
  | nil => simp [eq_comm]
  | cons x xs inductionHypothesis =>
      cases ys with
      | nil => simp [Option.bind_eq_some_iff]
      | cons y ys =>
          simp [Option.bind_eq_some_iff, ← inductionHypothesis]

theorem parse_eq_some_iff {filter : Str} {chunks : List Chunk} :
    parse filter = some chunks ↔
      List.Forall₂ (fun text chunk => Chunk.classify text = .ok chunk)
        (filter.splitOn '/') chunks := by
  have toOption : ∀ (e : Except String Chunk) (chunk : Chunk),
      e.toOption = some chunk ↔ e = .ok chunk := by
    intro e chunk
    cases e <;> simp [Except.toOption]
  rw [parse, mapM_eq_some_iff]
  simp only [toOption]

theorem parse_valid {filter : Str} {chunks : List Chunk} (parsed : parse filter = some chunks) :
    ∀ chunk ∈ chunks, chunk.Valid := by
  intro chunk isChunk
  obtain ⟨text, -, ok⟩ := exists_left_of_forall₂ (parse_eq_some_iff.mp parsed) isChunk
  exact classify_valid ok

theorem matched_iff_of_parse {filter : Str} {chunks : List Chunk}
    (parsed : parse filter = some chunks) (key : Str) :
    Matched filter key ↔ chunkRules.Matches chunks (keyChunks key) := by
  apply Rules.matches_congr (R := keyExpr) (T := chunkRules) (fun _ => Iff.rfl)
  exact (parse_eq_some_iff.mp parsed).imp fun _ _ ok => classify_alike ok

theorem ZenohFilter.Valid.parse_filter {f : ZenohFilter} (valid : f.Valid) :
    parse f.filter = some (normal f.chunks 0 false) := by
  rw [parse_eq_some_iff, valid.splitOn_filter, List.forall₂_map_left_iff, List.forall₂_same]
  intro chunk inNormal
  obtain ⟨chunkValid, -, anonymous⟩ := valid.normal_valid inNormal
  rw [chunkValid.classify_render, anonymous]

end AimDb.Zenoh
