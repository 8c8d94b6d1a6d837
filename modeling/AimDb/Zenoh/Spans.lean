import AimDb.Router.Route
import AimDb.Router.Subscriptions
import AimDb.Topic.Text
import AimDb.Zenoh.Matching

/-!
# Captured spans

Every span the matcher writes, in a failed attempt too, runs from one position
of the key to a later one, so a captured value can always be cut out.
-/

namespace AimDb.Zenoh

open Topic

def Position (topic : Str) (p : Nat) : Prop :=
  ∃ before rest, topic = before ++ rest ∧ p = byteLen before

theorem byteLen_pos {s : Str} (some : s ≠ []) : 0 < byteLen s := by
  obtain ⟨c, rest, rfl⟩ := List.exists_cons_of_ne_nil some
  have wide := Char.utf8Size_pos c
  rw [byteLen_cons]
  omega

theorem Position.zero (topic : Str) : Position topic 0 := ⟨[], topic, rfl, rfl⟩

theorem Position.last (topic : Str) : Position topic (byteLen topic) :=
  ⟨topic, [], by simp, rfl⟩

theorem Position.le {topic : Str} {p : Nat} (position : Position topic p) :
    p ≤ byteLen topic := by
  obtain ⟨before, rest, rfl, rfl⟩ := position
  simp

theorem Position.getBytes {topic : Str} {start stop : Nat} (first : Position topic start)
    (second : Position topic stop) (ordered : start ≤ stop) :
    ∃ value, getBytes topic start stop = some value := by
  obtain ⟨before, rest, rfl, rfl⟩ := first
  obtain ⟨front, back, whole, rfl⟩ := second
  rcases List.append_eq_append_iff.mp whole with ⟨body, rfl, rfl⟩ | ⟨body, rfl, rfl⟩
  · refine ⟨body, ?_⟩
    rw [byteLen_append]
    exact getBytes_slice before body back
  · obtain rfl : body = [] := by
      by_contra some
      have long := byteLen_pos some
      rw [byteLen_append] at ordered
      omega
    refine ⟨[], ?_⟩
    have cut := getBytes_slice front [] rest
    simpa using cut

theorem Position.chunkAt {topic : Str} {p : Nat} (position : Position topic p) :
    Position topic (p + byteLen (chunkAt topic p).1) ∧
      ∀ q ∈ (Zenoh.chunkAt topic p).2, Position topic q ∧ p ≤ q := by
  obtain ⟨before, rest, rfl, rfl⟩ := position
  have left : At (before ++ rest) (some (byteLen before)) (rest.splitOn '/') :=
    ⟨before, rest, rfl, rfl, rfl⟩
  obtain ⟨more, -, behind⟩ := left.chunkAt
  have text : (Zenoh.chunkAt (before ++ rest) (byteLen before)).1 <+: rest := by
    rw [Zenoh.chunkAt, dropBytes_append]
    split
    · exact List.takeWhile_prefix _
    · exact List.prefix_rfl
  constructor
  · obtain ⟨back, whole⟩ := text
    refine ⟨before ++ (Zenoh.chunkAt (before ++ rest) (byteLen before)).1, back, ?_, by simp⟩
    rw [List.append_assoc, whole]
  · intro q next
    rw [Option.mem_def] at next
    rw [next] at behind
    obtain ⟨front, back, whole, rfl, -⟩ := behind
    refine ⟨⟨front, back, whole, rfl⟩, ?_⟩
    simp only [Zenoh.chunkAt] at next
    split at next
    · have after := Option.some.inj next
      omega
    · cases next

def Sliced (topic : Str) (spans : Spans) : Prop :=
  ∀ span ∈ spans, ∃ start stop, span = (UInt16.ofNat start, UInt16.ofNat stop) ∧
    start ≤ stop ∧
    Position topic start ∧ Position topic stop

theorem sliced_fresh (topic : Str) : Sliced topic .fresh := by
  intro span inside
  obtain ⟨-, rfl⟩ := Vector.mem_replicate.mp inside
  exact ⟨0, 0, rfl, Nat.le_refl 0, .zero topic, .zero topic⟩

theorem Sliced.capture {topic : Str} {spans : Spans} (sliced : Sliced topic spans)
    (capture : Option Nat) {start stop : Nat} (ordered : start ≤ stop)
    (first : Position topic start) (second : Position topic stop) :
    Sliced topic (spans.capture capture start stop) := by
  cases capture with
  | none => exact sliced
  | some n =>
      intro span inside
      obtain ⟨i, bound, rfl⟩ := Vector.mem_iff_getElem.mp inside
      by_cases same : n = i
      · subst same
        refine ⟨start, stop, ?_, ordered, first, second⟩
        simp [Spans.capture, Spans.write]
      · have kept : (spans.capture (some n) start stop)[i] = spans[i] := by
          simp [Spans.capture, Spans.write, same]
        rw [kept]
        exact sliced _ (Vector.getElem_mem bound)

def Continues (topic : Str) (position : Option Nat) : Prop := ∀ p ∈ position, Position topic p

theorem chunkFits_sliced {topic : Str} {p : Nat} {spans : Spans} (position : Position topic p)
    (sliced : Sliced topic spans) (chunk : Chunk) :
    Sliced topic (ZenohFilter.chunkFits (chunkAt topic p).1 p spans chunk).2 := by
  cases chunk with
  | single capture =>
      exact sliced.capture capture (Nat.le_add_right _ _) position position.chunkAt.1
  | literal text => exact sliced
  | multi capture => exact sliced
  | glob pieces => exact sliced

theorem segmentAt_sliced (segment : List Chunk) {topic : Str} {position : Option Nat}
    {spans : Spans} (continues : Continues topic position) (sliced : Sliced topic spans) :
    Sliced topic (ZenohFilter.segmentAt topic segment position spans).2 ∧
      ∀ after ∈ (ZenohFilter.segmentAt topic segment position spans).1,
      Continues topic after := by
  induction segment generalizing position spans with
  | nil =>
      refine ⟨by simpa [ZenohFilter.segmentAt] using sliced, ?_⟩
      intro after found
      obtain rfl : position = after := Option.some.inj found
      exact continues
  | cons chunk segment inductionHypothesis =>
      cases position with
      | none => exact ⟨sliced, fun after found => by cases found⟩
      | some p =>
          have here : Position topic p := continues p rfl
          have fits := chunkFits_sliced here sliced chunk
          simp only [ZenohFilter.segmentAt]
          split
          · exact inductionHypothesis (fun q next => (here.chunkAt.2 q next).1) fits
          · exact ⟨fits, fun after found => by cases found⟩

theorem gapFrom_sliced (segment : List Chunk) (last : Bool) (capture : Option Nat) {topic : Str}
    {gapStart gapEnd : Nat} {here : Option Nat} {spans : Spans} (start : Position topic gapStart)
    (stop : Position topic gapEnd) (ordered : gapStart ≤ gapEnd)
    (continues : Continues topic here) (behind : ∀ p ∈ here, gapStart ≤ p)
    (sliced : Sliced topic spans) :
    Sliced topic (ZenohFilter.gapFrom topic segment last capture gapStart gapEnd here spans).2 ∧
      ∀ after ∈ (ZenohFilter.gapFrom topic segment last capture gapStart gapEnd here spans).1,
        Continues topic after := by
  induction gapEnd, here, spans using ZenohFilter.gapFrom.induct topic segment last capture gapStart
    with
  | case1 gapEnd here spans attempt fitted =>
      rename_i fits
      obtain ⟨attempted, reached⟩ := segmentAt_sliced segment continues
        (sliced.capture capture ordered start stop)
      unfold ZenohFilter.gapFrom
      simp only [attempt] at fits
      simp only [fits]
      refine ⟨attempted, ?_⟩
      intro after found
      obtain rfl : fitted = after := Option.some.inj found
      exact reached fitted (Option.filter_eq_some_iff.mp fits).1
  | case2 gapEnd spans attempt =>
      rename_i stuck
      obtain ⟨attempted, -⟩ := segmentAt_sliced segment continues
        (sliced.capture capture ordered start stop)
      unfold ZenohFilter.gapFrom
      simp only [attempt] at stuck
      simp only [stuck]
      exact ⟨attempted, fun after found => by cases found⟩
  | case3 gapEnd spans p verbatim attempt =>
      rename_i stuck
      obtain ⟨attempted, -⟩ := segmentAt_sliced segment continues
        (sliced.capture capture ordered start stop)
      unfold ZenohFilter.gapFrom
      simp only [attempt] at stuck
      simp only [stuck, verbatim, if_true]
      exact ⟨attempted, fun after found => by cases found⟩
  | case4 gapEnd spans p plain attempt =>
      rename_i stuck inductionHypothesis
      obtain ⟨attempted, -⟩ := segmentAt_sliced segment continues
        (sliced.capture capture ordered start stop)
      have position : Position topic p := continues p rfl
      have first : gapStart ≤ p := behind p rfl
      unfold ZenohFilter.gapFrom
      simp only [attempt] at stuck
      simp only [stuck, plain, Bool.false_eq_true, if_false]
      apply inductionHypothesis position.chunkAt.1 (Nat.le_add_right_of_le first)
      · exact fun q next => (position.chunkAt.2 q next).1
      · exact fun q next => Nat.le_trans first (position.chunkAt.2 q next).2
      · exact attempted

theorem matchSegments_sliced {topic : Str} {segments : List (List Chunk)}
    {multis : List (Option Nat)} {position : Option Nat} {spans : Spans}
    (continues : Continues topic position) (sliced : Sliced topic spans) :
    Sliced topic (ZenohFilter.matchSegments topic segments multis position spans).2 := by
  induction segments generalizing multis position spans with
  | nil => exact sliced
  | cons segment segments inductionHypothesis =>
      have start : Position topic (position.getD (byteLen topic)) := by
        cases position with
        | none => exact .last topic
        | some p => exact continues p rfl
      have behind : ∀ p ∈ position, position.getD (byteLen topic) ≤ p := by
        rintro p rfl
        exact Nat.le_refl p
      obtain ⟨gap, reached⟩ := gapFrom_sliced segment segments.isEmpty
        multis.head?.join start start (Nat.le_refl _) continues behind sliced
      simp only [ZenohFilter.matchSegments]
      split
      · rename_i spans' found
        rwa [found] at gap
      · rename_i after spans' found
        rw [found] at gap reached
        exact inductionHypothesis (reached after rfl) gap

theorem ZenohFilter.isMatch_sliced (f : ZenohFilter) {topic : Str} {spans : Spans}
    (sliced : Sliced topic spans) : Sliced topic (f.isMatch topic spans).2 := by
  have start : Continues topic (if topic.isEmpty then none else some 0) := by
    intro p first
    split at first
    · cases first
    · obtain rfl : 0 = p := Option.some.inj first
      exact .zero topic
  obtain ⟨segment, reached⟩ := segmentAt_sliced
    ((f.chunks.splitOnP Chunk.isMulti).headD []) start sliced
  rw [ZenohFilter.isMatch]
  split
  · exact sliced
  · simp only
    split
    · rename_i spans' found
      rwa [found] at segment
    · rename_i after spans' found
      rw [found] at segment reached
      exact matchSegments_sliced (reached after rfl) segment

end AimDb.Zenoh
