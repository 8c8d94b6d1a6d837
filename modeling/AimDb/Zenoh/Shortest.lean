import AimDb.Wildcard.Division
import AimDb.Zenoh.Greedy
import AimDb.Zenoh.Spans

/-!
# The walk over a key

Where the matcher stands, and which chunks of the key lie before and behind it.
-/

namespace AimDb.Zenoh

open Topic Wildcard

theorem join_keyChunks (key : Str) : join ['/'] (keyChunks key) = key := by
  rw [keyChunks]
  split
  · rename_i empty
    rw [empty]
    rfl
  · exact List.intercalate_splitOn '/'

/-- The matcher has walked over `front` and stands before the other chunks. -/
structure Trail (topic : Str) (front : List Str) (position : Option Nat) (chunks : List Str) :
    Prop where
  whole : keyChunks topic = front ++ chunks
  left : At topic position chunks
  here : ∀ p ∈ position, p = byteLen (lead '/' front)

theorem Trail.text {topic : Str} {front : List Str} {position : Option Nat} {chunks : List Str}
    (trail : Trail topic front position chunks) : topic = join ['/'] (front ++ chunks) := by
  rw [← trail.whole, join_keyChunks]

theorem Trail.start (topic : Str) :
    Trail topic [] (if topic.isEmpty then none else some 0) (keyChunks topic) where
  whole := rfl
  left := at_start topic
  here p start := by
    split at start
    · cases start
    · exact (Option.some.inj start).symm

theorem Trail.step {topic : Str} {front chunks : List Str} {p : Nat}
    (trail : Trail topic front (some p) chunks) :
    ∃ more, chunks = (chunkAt topic p).1 :: more ∧
      Trail topic (front ++ [(chunkAt topic p).1]) (chunkAt topic p).2 more := by
  obtain ⟨more, rfl, behind⟩ := trail.left.chunkAt
  refine ⟨more, rfl, by rw [trail.whole, List.append_assoc]; rfl, behind, ?_⟩
  have here := trail.here p rfl
  intro q next
  rw [lead_append, byteLen_append, byteLen_lead_singleton, ← here]
  simp only [chunkAt, Option.mem_def] at next ⊢
  split at next
  · rename_i slash
    rw [if_pos slash, ← Option.some.inj next, Nat.add_assoc]
  · cases next

theorem Trail.exists_some {topic : Str} {front chunks : List Str} {chunk : Str}
    {position : Option Nat} (trail : Trail topic front position (chunk :: chunks)) :
    ∃ p, position = some p :=
  trail.left.exists_some

theorem Trail.position {topic : Str} {front chunks : List Str} {position : Option Nat}
    (trail : Trail topic front position chunks) :
    Position topic (position.getD (byteLen topic)) := by
  cases position with
  | none => exact .last topic
  | some p =>
      obtain ⟨before, rest, whole, here, -⟩ := trail.left
      exact ⟨before, rest, whole, here⟩

instance : DecidablePred chunkRules.Spans := fun chunk =>
  inferInstanceAs (Decidable (chunk.isMulti = true))

theorem chunkFits_marks {topic : Str} {front more : List Str} {text : Str} {chunk : Chunk}
    {spans : Spans} {n : Nat} (bound : byteLen topic ≤ 65535)
    (whole : topic = join ['/'] (front ++ ([text] ++ more))) (takes : chunk.Takes text)
    (isCapture : n ∈ chunk.capture) (inside : n < maxCaptures) :
    Marks topic front [text]
      (ZenohFilter.chunkFits text (byteLen (lead '/' front)) spans chunk).2[n]? := by
  cases chunk with
  | single capture =>
      obtain rfl : capture = some n := isCapture
      have slot := @capture_self spans n (byteLen (lead '/' front))
        (byteLen (lead '/' front) + byteLen text) inside
      rw [ZenohFilter.chunkFits, slot]
      have marks := marks_text bound whole (by simp)
      simpa [join] using marks
  | multi capture => cases takes
  | literal literal => cases isCapture
  | glob pieces => cases isCapture

theorem segmentAt_marks {topic : Str} {segment : List Chunk} {front taken rest : List Str}
    {position : Option Nat} (spans : Spans) (bound : byteLen topic ≤ 65535)
    (valid : ∀ chunk ∈ segment, chunk.Valid) (slots : Slots Chunk.capture segment)
    (trail : Trail topic front position (taken ++ rest))
    (takes : List.Forall₂ Chunk.Takes segment taken) :
    ∃ after, (ZenohFilter.segmentAt topic segment position spans).1 = some after ∧
      Trail topic (front ++ taken) after rest ∧
      Marked Chunk.capture topic (ZenohFilter.segmentAt topic segment position spans).2 front
        segment
        (taken.map fun chunk => [chunk]) := by
  induction takes generalizing front position spans with
  | nil => exact ⟨position, rfl, by simpa using trail, trivial⟩
  | @cons chunk text segment taken takesHead _ inductionHypothesis =>
      obtain ⟨p, rfl⟩ := trail.exists_some
      obtain ⟨more, same, behind⟩ := trail.step
      obtain ⟨rfl, rfl⟩ := List.cons.inj same
      have here : p = byteLen (lead '/' front) := trail.here p rfl
      have fits := fits_of_takes (valid chunk (by simp)) takesHead p spans
      obtain ⟨after, found, reached, marked⟩ := inductionHypothesis
        (ZenohFilter.chunkFits (chunkAt topic p).1 p spans chunk).2
        (fun other later => valid other (by simp [later])) slots.tail behind
      simp only [ZenohFilter.segmentAt, fits, if_true]
      refine ⟨after, found, by simpa using reached, ?_, marked⟩
      intro n isCapture
      rw [segmentAt_frame (slots.head_not_mem isCapture)]
      subst here
      exact chunkFits_marks bound (by simpa using trail.text) takesHead isCapture
        (slots.head_lt isCapture)

/-- A gap that has absorbed `passed` so far. -/
structure Gap (topic : Str) (front passed : List Str) (gapStart gapEnd : Nat)
    (here : Option Nat) : Prop where
  start : Position topic gapStart
  behind : passed ≠ [] ∨ here ≠ none → gapStart = byteLen (lead '/' front)
  stop : gapEnd = gapStart + byteLen (join ['/'] passed)

theorem Gap.first {topic : Str} {front chunks : List Str} {position : Option Nat}
    (trail : Trail topic front position chunks) :
    Gap topic front [] (position.getD (byteLen topic))
      (position.getD (byteLen topic)) position where
  start := trail.position
  behind := by
    rintro (absurdum | some)
    · exact absurd rfl absurdum
    · obtain ⟨p, rfl⟩ := Option.ne_none_iff_exists'.mp some
      exact trail.here p rfl
  stop := rfl

theorem Gap.step {topic : Str} {front passed chunks : List Str} {gapStart gapEnd p : Nat}
    (gap : Gap topic front passed gapStart gapEnd (some p))
    (trail : Trail topic (front ++ passed) (some p) chunks) :
    Gap topic front (passed ++ [(chunkAt topic p).1]) gapStart (p + byteLen (chunkAt topic p).1)
      (chunkAt topic p).2 where
  start := gap.start
  behind _ := gap.behind (.inr (by simp))
  stop := by
    rw [trail.here p rfl, gap.behind (.inr (by simp)), join_append_singleton, lead_append,
      byteLen_append, byteLen_append, Nat.add_assoc]

theorem Gap.marks {topic : Str} {front passed more : List Str} {gapStart gapEnd : Nat}
    {here : Option Nat} (bound : byteLen topic ≤ 65535)
    (gap : Gap topic front passed gapStart gapEnd here)
    (whole : topic = join ['/'] (front ++ (passed ++ more))) :
    Marks topic front passed (some (UInt16.ofNat gapStart, UInt16.ofNat gapEnd)) := by
  have stop := gap.stop
  by_cases none : passed = []
  · subst none
    obtain rfl : gapEnd = gapStart := by simpa using stop
    obtain ⟨before, rest, text, rfl⟩ := gap.start
    exact marks_nothing front bound text
  · rw [stop, gap.behind (.inl none)]
    exact marks_text bound whole none

section Stop

variable {topic : Str} {segment : List Chunk} {last : Bool} {capture : Option Nat}

/-- Where a gap stopped: `run` is what it took from `chunks` on, `taken` what the
segment behind it took. -/
structure Stopped (topic : Str) (segment pattern : List Chunk) (capture : Option Nat)
    (front passed chunks run taken rest : List Str) (after : Option Nat) (spans : Spans) :
    Prop where
  cut : chunks = run ++ (taken ++ rest)
  absorbs : ∀ t ∈ run, chunkRules.Absorbs t
  takes : List.Forall₂ Chunk.Takes segment taken
  stops : ∀ k < run.length, ¬ chunkRules.Matches (segment ++ pattern) (chunks.drop k)
  trail : Trail topic (front ++ (passed ++ run) ++ taken) after rest
  gap : ∀ n ∈ capture, Marks topic front (passed ++ run) spans[n]?
  marked : Marked Chunk.capture topic spans (front ++ (passed ++ run)) segment
    (taken.map fun chunk => [chunk])

theorem gapFrom_stopped (pattern : List Chunk) {front passed chunks : List Str}
    {gapStart gapEnd : Nat} {here after : Option Nat} {spans : Spans}
    (bound : byteLen topic ≤ 65535)
    (valid : ∀ chunk ∈ segment, chunk.Valid)
    (single : ∀ chunk ∈ segment, ¬ chunkRules.Spans chunk)
    (slots : Slots Chunk.capture (.multi capture :: segment))
    (isLast : last = true → pattern = [])
    (trail : Trail topic (front ++ passed) here chunks)
    (gap : Gap topic front passed gapStart gapEnd here)
    (found : (ZenohFilter.gapFrom topic segment last capture gapStart gapEnd here spans).1 =
      some after) :
    ∃ run taken rest, Stopped topic segment pattern capture front passed chunks run taken rest
      after
      (ZenohFilter.gapFrom topic segment last capture gapStart gapEnd here spans).2 := by
  induction gapEnd, here, spans using ZenohFilter.gapFrom.induct topic segment last capture gapStart
    generalizing passed chunks with
  | case1 gapEnd here spans attempt fitted =>
      rename_i fits
      unfold ZenohFilter.gapFrom at found ⊢
      simp only [attempt] at fits
      simp only [fits, Option.some.injEq] at found ⊢
      obtain rfl := found
      obtain ⟨segmentFits, -⟩ := Option.filter_eq_some_iff.mp fits
      obtain ⟨taken, rest, rfl, takes, -⟩ := segmentAt_spec valid trail.left segmentFits
      obtain ⟨after, foundHere, reached, marked⟩ := segmentAt_marks
        (spans.capture capture gapStart gapEnd) bound valid slots.tail trail takes
      obtain rfl : fitted = after := Option.some.inj (segmentFits.symm.trans foundHere)
      refine ⟨[], taken, rest, rfl, by simp, takes, by simp, by simpa using reached, ?_,
        by simpa using marked⟩
      intro n isCapture
      obtain rfl : capture = some n := isCapture
      rw [segmentAt_frame (slots.head_not_mem rfl), capture_self (slots.head_lt rfl),
        List.append_nil]
      exact gap.marks bound (by simpa using trail.text)
  | case2 gapEnd spans attempt =>
      rename_i stuck
      unfold ZenohFilter.gapFrom at found
      simp only [attempt] at stuck
      simp only [stuck] at found
      cases found
  | case3 gapEnd spans p verbatim attempt =>
      rename_i stuck
      unfold ZenohFilter.gapFrom at found
      simp only [attempt] at stuck
      simp only [stuck, verbatim, if_true] at found
      cases found
  | case4 gapEnd spans p plain attempt =>
      rename_i stuck inductionHypothesis
      unfold ZenohFilter.gapFrom at found ⊢
      simp only [attempt] at stuck inductionHypothesis
      simp only [stuck, plain, Bool.false_eq_true, if_false] at found ⊢
      obtain ⟨more, rfl, behind⟩ := trail.step
      have next : Trail topic (front ++ (passed ++ [(chunkAt topic p).1]))
          (chunkAt topic p).2 more :=
        by simpa using behind
      obtain ⟨run, taken, rest, stopped⟩ := inductionHypothesis next (gap.step trail) found
      have grown : passed ++ [(chunkAt topic p).1] ++ run =
          passed ++ (chunkAt topic p).1 :: run := by
        simp
      have trailEnd := stopped.trail
      have marks := stopped.gap
      have marked := stopped.marked
      rw [grown] at trailEnd marks marked
      refine ⟨(chunkAt topic p).1 :: run, taken, rest, ?_, ?_, stopped.takes, ?_, trailEnd, marks,
        marked⟩
      · rw [stopped.cut]
        rfl
      · intro t inRun
        rcases List.mem_cons.mp inRun with rfl | later
        · exact Bool.eq_false_iff.mpr plain
        · exact stopped.absorbs t later
      · intro k before matched
        cases k with
        | zero => exact attempt_of_matches _ valid single isLast trail.left matched stuck
        | succ k => exact stopped.stops k (Nat.lt_of_succ_lt_succ before) matched

end Stop

theorem filterMap_multiCapture {segment : List Chunk}
    (single : ∀ chunk ∈ segment, ¬ chunkRules.Spans chunk) :
    segment.filterMap Chunk.multiCapture = [] := by
  rw [List.filterMap_eq_nil_iff]
  intro chunk inSegment
  cases chunk with
  | multi capture => exact absurd rfl (single _ inSegment)
  | _ => rfl

theorem Behind.cons_cases {segment : List Chunk} {segments : List (List Chunk)}
    {chunks : List Chunk} (behind : Behind (segment :: segments) chunks) :
    ∃ capture pattern, chunks = .multi capture :: (segment ++ pattern) ∧
      (∀ chunk ∈ segment, ¬ chunkRules.Spans chunk) ∧ Behind segments pattern ∧
      chunks.filterMap Chunk.multiCapture =
        capture :: pattern.filterMap Chunk.multiCapture := by
  rcases behind with ⟨impossible, -⟩ | ⟨multi, rest, isMulti, rfl, split⟩
  · cases impossible
  · obtain ⟨singles, pattern, rfl, tailBehind⟩ := splitOnP_cons_cases split.symm
    cases multi with
    | multi capture =>
        refine ⟨capture, pattern, rfl, singles, tailBehind, ?_⟩
        rw [List.filterMap_cons, List.filterMap_append, filterMap_multiCapture singles]
        rfl
    | _ => cases isMulti

theorem matchSegments_frame {topic : Str} {segments : List (List Chunk)}
    {multis : List (Option Nat)} {position : Option Nat} {spans : Spans} {pattern : List Chunk}
    {n : Nat} (behind : Behind segments pattern)
    (aligned : multis = pattern.filterMap Chunk.multiCapture)
    (other : n ∉ captures Chunk.capture pattern) :
    (ZenohFilter.matchSegments topic segments multis position spans).2[n]? = spans[n]? := by
  induction segments generalizing multis position spans pattern with
  | nil => rfl
  | cons segment segments inductionHypothesis =>
      obtain ⟨capture, tail, rfl, -, tailBehind, heads⟩ := behind.cons_cases
      subst aligned
      rw [heads]
      simp only [captures_cons, captures_append, List.mem_append, not_or] at other
      have kept := @gapFrom_frame topic segment segments.isEmpty capture
        (position.getD (byteLen topic)) (position.getD (byteLen topic)) position spans n
        (by simpa [Chunk.capture] using other.1) other.2.1
      simp only [ZenohFilter.matchSegments, List.head?_cons, Option.join_some, List.tail_cons]
      split
      · rename_i next stuck
        rwa [stuck] at kept
      · rename_i after next found
        rw [found] at kept
        rw [inductionHypothesis tailBehind rfl other.2.2, kept]

theorem matchSegments_first {topic : Str} {segments : List (List Chunk)}
    {multis : List (Option Nat)} {position : Option Nat} {spans : Spans} {pattern : List Chunk}
    {front chunks : List Str} (bound : byteLen topic ≤ 65535)
    (valid : ∀ chunk ∈ pattern, chunk.Valid) (slots : Slots Chunk.capture pattern)
    (behind : Behind segments pattern) (aligned : multis = pattern.filterMap Chunk.multiCapture)
    (trail : Trail topic front position chunks)
    (matched : (ZenohFilter.matchSegments topic segments multis position spans).1 = true) :
    ∃ runs, chunkRules.Earliest pattern chunks runs ∧
      Marked Chunk.capture topic (ZenohFilter.matchSegments topic segments multis position spans).2
        front pattern
        runs := by
  induction segments generalizing multis position spans pattern front chunks with
  | nil =>
      obtain rfl := behind.isEmpty_iff.mp rfl
      have last : position = none := by simpa [ZenohFilter.matchSegments] using matched
      subst last
      obtain rfl : chunks = [] := trail.left
      exact ⟨[], .nil, trivial⟩
  | cons segment segments inductionHypothesis =>
      obtain ⟨capture, tail, rfl, singles, tailBehind, heads⟩ := behind.cons_cases
      subst aligned
      rw [heads] at matched ⊢
      have slotsHere : Slots Chunk.capture (.multi capture :: segment) := slots.left
      have slotsTail : Slots Chunk.capture tail := slots.tail.right
      have validSegment : ∀ chunk ∈ segment, chunk.Valid :=
        fun chunk inSegment => valid chunk (by simp [inSegment])
      simp only [ZenohFilter.matchSegments, List.head?_cons, Option.join_some,
        List.tail_cons] at matched ⊢
      split at matched
      · cases matched
      · rename_i after next found
        obtain ⟨run, taken, rest, stopped⟩ := gapFrom_stopped tail bound validSegment
          singles slotsHere tailBehind.isEmpty_iff.mp (by simpa using trail) (.first trail)
          (congrArg Prod.fst found)
        rw [found] at stopped
        obtain ⟨cut, absorbs, takes, stops, reached, gap, marked⟩ := stopped
        obtain ⟨runs, earliest, marks⟩ := inductionHypothesis
          (fun chunk later =>
            valid chunk (by simp [later])) slotsTail tailBehind rfl reached matched
        subst cut
        refine ⟨run :: (taken.map (fun chunk => [chunk]) ++ runs),
          .span rfl absorbs stops (earliest.block singles takes), ?_, ?_⟩
        · intro n isCapture
          have kept : n ∉ captures Chunk.capture tail := by
            intro later
            have notBehind := Slots.head_not_mem slots isCapture
            rw [captures_append] at notBehind
            exact notBehind (List.mem_append_right _ later)
          rw [matchSegments_frame tailBehind rfl kept]
          exact gap n isCapture
        · apply Marked.block takes.length_eq.symm
          · apply marked.congr
            intro n inSegment
            exact matchSegments_frame tailBehind rfl (Slots.disjoint slots.tail inSegment)
          · simpa using marks

theorem ZenohFilter.Valid.isMatch_first {f : ZenohFilter} (valid : f.Valid)
    (slots : Slots Chunk.capture f.chunks)
    {key : Str} {spans : Spans} (bound : byteLen key ≤ 65535)
    (matched : (f.isMatch key spans).1 = true) :
    ∃ runs, chunkRules.Earliest f.chunks (keyChunks key) runs ∧
      Marked Chunk.capture key (f.isMatch key spans).2 [] f.chunks runs := by
  unfold ZenohFilter.isMatch at matched ⊢
  split at matched
  · cases matched
  rename_i noStar
  rw [if_neg noStar]
  cases split : f.chunks.splitOnP Chunk.isMulti with
  | nil => exact absurd split (List.splitOnP_ne_nil _ _)
  | cons segment segments =>
      obtain ⟨singles, pattern, whole, behind⟩ := splitOnP_cons_cases split
      have validAll : ∀ chunk ∈ segment ++ pattern, chunk.Valid := whole ▸ valid.valid
      have slotsAll : Slots Chunk.capture (segment ++ pattern) := whole ▸ slots
      have aligned : f.chunks.filterMap Chunk.multiCapture =
          pattern.filterMap Chunk.multiCapture := by
        rw [whole, List.filterMap_append, filterMap_multiCapture singles, List.nil_append]
      have validSegment : ∀ chunk ∈ segment, chunk.Valid :=
        fun chunk inSegment => validAll chunk (by simp [inSegment])
      simp only [split, List.headD_cons, List.tail_cons, aligned] at matched ⊢
      split at matched
      · cases matched
      · rename_i position next found
        have trail := Trail.start key
        obtain ⟨taken, rest, chunks, takes, -⟩ := segmentAt_spec validSegment trail.left
          (congrArg Prod.fst found)
        rw [chunks] at trail ⊢
        obtain ⟨after, foundHere, reached, marked⟩ :=
          segmentAt_marks spans bound validSegment slotsAll.left trail takes
        rw [found] at foundHere marked
        obtain rfl : position = after := Option.some.inj foundHere
        obtain ⟨runs, earliest, marks⟩ := matchSegments_first bound
          (fun chunk inTail => validAll chunk (by simp [inTail])) slotsAll.right behind rfl
          reached matched
        rw [whole]
        refine ⟨taken.map (fun chunk => [chunk]) ++ runs, earliest.block singles takes, ?_⟩
        apply Marked.block takes.length_eq.symm _ marks
        apply marked.congr
        intro n inSegment
        exact matchSegments_frame behind rfl (slotsAll.disjoint inSegment)

/-- How many chunks each `{name..}` takes, from the left. -/
def captured : List Chunk → List (List Str) → List Nat
  | .multi (some _) :: chunks, run :: runs => run.length :: captured chunks runs
  | _ :: chunks, _ :: runs => captured chunks runs
  | _, _ => []

/-- A split in which the `{name..}`, from the left, take as few chunks as they
can, whatever a `**` without a name takes. -/
structure Sparing (chunks : List Chunk) (key : Str) (runs : List (List Str)) : Prop where
  division : chunkRules.Division chunks (keyChunks key) runs
  least : ∀ others, chunkRules.Division chunks (keyChunks key) others →
    ¬ List.Lex (· < ·) (captured chunks others) (captured chunks runs)

theorem captured_eq_spanned {chunks : List Chunk} (named : .multi none ∉ chunks)
    (runs : List (List Str)) : captured chunks runs = chunkRules.spanned chunks runs := by
  induction chunks generalizing runs with
  | nil => simp [captured, Rules.spanned]
  | cons chunk chunks inductionHypothesis =>
      have later : .multi none ∉ chunks := fun inside => named (List.mem_cons_of_mem _ inside)
      cases runs with
      | nil => cases chunk <;> simp [captured, Rules.spanned]
      | cons run runs =>
          have tail := inductionHypothesis later runs
          have single : ∀ chunk : Chunk, chunk.isMulti = false →
              chunkRules.spanned (chunk :: chunks) (run :: runs) = chunkRules.spanned chunks runs :=
            fun chunk notMulti => if_neg (Bool.eq_false_iff.mp notMulti)
          cases chunk with
          | multi capture =>
              cases capture with
              | none => exact absurd (by simp) named
              | some n =>
                  have spans : chunkRules.Spans (.multi (some n)) := rfl
                  rw [captured, Rules.spanned, if_pos spans, tail]
          | single capture => rw [single _ rfl, ← tail]; simp [captured]
          | literal text => rw [single _ rfl, ← tail]; simp [captured]
          | glob pieces => rw [single _ rfl, ← tail]; simp [captured]

/-- The matcher accepts the keys that some split of their chunks fits, and then
each capture marks what it has in the first of these splits. -/
structure ZenohFilter.Exact (f : ZenohFilter) (key : Str) (spans : Spans) : Prop where
  accepts : (f.isMatch key spans).1 = true ↔
    ∃ runs, chunkRules.Division f.chunks (keyChunks key) runs
  marks : (f.isMatch key spans).1 = true →
    ∃ runs, chunkRules.First f.chunks (keyChunks key) runs ∧
    (∀ others, chunkRules.First f.chunks (keyChunks key) others → others = runs) ∧
    Marked Chunk.capture key (f.isMatch key spans).2 [] f.chunks runs
  sparing : .multi none ∉ f.chunks → ∀ runs,
    chunkRules.First f.chunks (keyChunks key) runs ↔ Sparing f.chunks key runs

/-- Matching a key against a compiled pattern is exact. -/
theorem exact_of_compiled {topic : Str} {pattern : TopicPattern} {f : ZenohFilter}
    (parsed : TopicPattern.parse topic = .ok pattern) (compiled : compileFilter pattern = .ok f)
    {key : Str} (bound : byteLen key ≤ 65535) (plain : '*' ∉ key) (spans : Spans) :
    f.Exact key spans where
  accepts := by
    have valid := compileFilter_valid compiled
    rw [valid.isMatch_iff plain, valid.matched_iff, Rules.matches_iff_division]
  marks matched := by
    obtain ⟨runs, earliest, marked⟩ := (compileFilter_valid compiled).isMatch_first
      (compileFilter_slots parsed compiled) bound matched
    exact ⟨runs, earliest.first, fun _ other => other.unique earliest.first, marked⟩
  sparing named runs := by
    have same := captured_eq_spanned named
    constructor
    · rintro ⟨division, least⟩
      refine ⟨division, fun others other => ?_⟩
      rw [same, same]
      exact least others other
    · rintro ⟨division, least⟩
      refine ⟨division, fun others other => ?_⟩
      rw [← same, ← same]
      exact least others other

/-- `{x..}/c/{y..}` as parsed and compiled. -/
def shortestPattern : TopicPattern :=
  ⟨"{x..}/c/{y..}".toList,
    [.capture "x".toList true, .text "/c/".toList, .capture "y".toList true]⟩

def shortestFilter : ZenohFilter :=
  ⟨"**/c/**".toList, [.multi (some 0), .literal "c".toList, .multi (some 1)]⟩

theorem exact_of_compiled_shortest :
    TopicPattern.parse "{x..}/c/{y..}".toList = .ok shortestPattern ∧
      compileFilter shortestPattern = .ok shortestFilter ∧
      shortestFilter.Exact "c/c/c".toList .fresh := by
  have parsed : TopicPattern.parse "{x..}/c/{y..}".toList = .ok shortestPattern := by
    decide +kernel
  have compiled : compileFilter shortestPattern = .ok shortestFilter := by decide
  exact ⟨parsed, compiled, exact_of_compiled parsed compiled (by decide) (by decide) .fresh⟩

/-- `**/{rest..}` as parsed and compiled. -/
def unnamedPattern : TopicPattern :=
  ⟨"**/{rest..}".toList, [.text "**/".toList, .capture "rest".toList true]⟩

def unnamedFilter : ZenohFilter := ⟨"**".toList, [.multi none, .multi (some 0)]⟩

/-- The `**` in front takes nothing, so `{rest..}` takes the chunk that a split
could spare it. -/
theorem not_sparing_unnamed :
    TopicPattern.parse "**/{rest..}".toList = .ok unnamedPattern ∧
      compileFilter unnamedPattern = .ok unnamedFilter ∧
      (unnamedFilter.isMatch ['x'] .fresh).1 = true ∧
      ¬ ∃ runs, Sparing unnamedFilter.chunks ['x'] runs ∧
        Marked Chunk.capture ['x'] (unnamedFilter.isMatch ['x']
          .fresh).2 [] unnamedFilter.chunks runs := by
  refine ⟨by decide +kernel, by decide, by decide +kernel, ?_⟩
  rintro ⟨runs, ⟨⟨whole, fills⟩, least⟩, marked⟩
  have spared : chunkRules.Division unnamedFilter.chunks (keyChunks ['x']) [[['x']], []] := by
    have absorbs : ∀ t ∈ [['x']], chunkRules.Absorbs t := by
      intro t inRun
      rw [List.mem_singleton.mp inRun]
      rfl
    exact ⟨rfl, .cons (.inl ⟨rfl, absorbs⟩) (.cons (.inl ⟨rfl, by simp⟩) .nil)⟩
  have slot : (unnamedFilter.isMatch ['x'] .fresh).2[0]? = some (0, 1) := by decide +kernel
  have none := least _ spared
  cases fills with
  | @cons _ first _ others _ tail =>
      cases tail with
      | @cons _ second _ more _ _ =>
          obtain ⟨before, after, start, stop, marks, -, starts, stops, -⟩ := marked.2.1 0 rfl
          rw [slot, Option.some.injEq, Prod.mk.injEq] at marks
          obtain ⟨rfl, rfl⟩ := marks
          cases second with
          | nil =>
              rw [← starts] at stops
              cases stops
          | cons chunk second =>
              apply none
              exact List.Lex.rel (Nat.succ_pos second.length)

end AimDb.Zenoh
