import AimDb.Topic.Text

/-!
# Where the captures land

Captures are numbered from the left and each has its own slot.  The span in a
slot marks the text of the levels of the topic that the capture has for itself.
-/

namespace AimDb.Topic

section Slots

variable {α : Type} {capture : α → Option Nat}

/-- The capture numbers of a pattern's items, in order. -/
def captures (capture : α → Option Nat) (items : List α) : List Nat := items.filterMap capture

theorem captures_cons (item : α) (items : List α) :
    captures capture (item :: items) = (capture item).toList ++ captures capture items := by
  rw [captures, List.filterMap_cons]
  cases capture item <;> rfl

theorem captures_append (items more : List α) :
    captures capture (items ++ more) = captures capture items ++ captures capture more :=
  List.filterMap_append

theorem captures_of_compiled {compile : RawSegment → Except String α} {raw : List RawSegment}
    {items : List α} (kept : ∀ {segment item}, compile segment = .ok item →
      capture item = segment.capture.map Prod.fst)
    (paired : List.Forall₂ (fun segment item => compile segment = .ok item) raw items) :
    captures capture items = RawSegments.numbers raw := by
  induction paired with
  | nil => rfl
  | cons ok _ inductionHypothesis =>
      rw [captures, RawSegments.numbers] at inductionHypothesis ⊢
      rw [List.filterMap_cons, List.filterMap_cons, kept ok, inductionHypothesis]

structure Slots (capture : α → Option Nat) (items : List α) : Prop where
  distinct : (captures capture items).Nodup
  inside : ∀ n ∈ captures capture items, n < maxCaptures

theorem slots_of_parse {topic : Str} {pattern : TopicPattern} {items : List α}
    (parsed : TopicPattern.parse topic = .ok pattern)
    (numbered : captures capture items = List.range pattern.captureNames.length) :
    Slots capture items := by
  have room := TopicPattern.captureNames_length_le parsed
  constructor
  · rw [numbered]
    exact List.nodup_range
  · intro n isCapture
    rw [numbered, List.mem_range] at isCapture
    omega

namespace Slots

variable {item : α} {items more : List α}

theorem tail (slots : Slots capture (item :: items)) : Slots capture items := by
  obtain ⟨distinct, inside⟩ := slots
  rw [captures_cons] at distinct inside
  exact ⟨(List.nodup_append.mp distinct).2.1, fun n later => inside n (by simp [later])⟩

theorem left (slots : Slots capture (items ++ more)) : Slots capture items := by
  obtain ⟨distinct, inside⟩ := slots
  rw [captures_append] at distinct inside
  exact ⟨(List.nodup_append.mp distinct).1, fun n earlier => inside n (by simp [earlier])⟩

theorem right (slots : Slots capture (items ++ more)) : Slots capture more := by
  obtain ⟨distinct, inside⟩ := slots
  rw [captures_append] at distinct inside
  exact ⟨(List.nodup_append.mp distinct).2.1, fun n later => inside n (by simp [later])⟩

theorem head_not_mem (slots : Slots capture (item :: items)) {n : Nat}
    (isCapture : n ∈ capture item) : n ∉ captures capture items := by
  have distinct := slots.distinct
  rw [captures_cons] at distinct
  intro later
  exact (List.nodup_append.mp distinct).2.2 n (by simpa using isCapture) n later rfl

theorem disjoint (slots : Slots capture (items ++ more)) {n : Nat}
    (earlier : n ∈ captures capture items) : n ∉ captures capture more := by
  have distinct := slots.distinct
  rw [captures_append] at distinct
  intro later
  exact (List.nodup_append.mp distinct).2.2 n earlier n later rfl

theorem head_lt (slots : Slots capture (item :: items)) {n : Nat} (isCapture : n ∈ capture item) :
    n < maxCaptures := by
  apply slots.inside
  rw [captures_cons]
  simpa using .inl isCapture

end Slots

end Slots

theorem capture_of_ne {spans : Spans} {capture : Option Nat} {n start stop : Nat}
    (other : n ∉ capture) : (spans.capture capture start stop)[n]? = spans[n]? := by
  cases capture with
  | none => rfl
  | some m =>
      have distinct : m ≠ n := by simpa using other
      rw [Spans.capture, Spans.write, Vector.getElem?_setIfInBounds_ne distinct]

theorem capture_self {spans : Spans} {n start stop : Nat} (inside : n < maxCaptures) :
    (spans.capture (some n) start stop)[n]? = some (UInt16.ofNat start, UInt16.ofNat stop) := by
  rw [Spans.capture, Spans.write, Vector.getElem?_setIfInBounds_self, if_pos inside]

theorem byteLen_lead_singleton (level : Str) :
    byteLen (lead '/' [level]) = byteLen level + 1 := by
  rw [lead_singleton, byteLen_append]
  rfl

theorem exists_text {topic : Str} {front run more : List Str}
    (whole : topic = join ['/'] (front ++ (run ++ more))) (some : run ≠ []) :
    ∃ after, topic = lead '/' front ++ (join ['/'] run ++ after) := by
  obtain ⟨after, behind⟩ := exists_join_append some more
  refine ⟨after, ?_⟩
  rw [whole, join_append front (by simp [some]), behind]

/-- The slot holds the span of the text of `run`, which lies behind `front`. -/
def Marks (topic : Str) (front run : List Str) (slot : Option (UInt16 × UInt16)) : Prop :=
  ∃ before after start stop, slot = some (start, stop) ∧
    topic = before ++ (join ['/'] run ++ after) ∧ start.toNat = byteLen before ∧
    stop.toNat = byteLen before + byteLen (join ['/'] run) ∧
    (run ≠ [] → before = lead '/' front)

theorem toNat_ofNat {n : Nat} (bound : n ≤ 65535) : (UInt16.ofNat n).toNat = n := by
  rw [UInt16.toNat_ofNat']
  omega

theorem marks_text {topic : Str} {front run more : List Str} (bound : byteLen topic ≤ 65535)
    (whole : topic = join ['/'] (front ++ (run ++ more))) (some : run ≠ []) :
    Marks topic front run (.some (UInt16.ofNat (byteLen (lead '/' front)),
      UInt16.ofNat (byteLen (lead '/' front) + byteLen (join ['/'] run)))) := by
  obtain ⟨after, text⟩ := exists_text whole some
  have size := congrArg byteLen text
  rw [byteLen_append, byteLen_append] at size
  refine ⟨lead '/' front, after, _, _, rfl, text, ?_, ?_, fun _ => rfl⟩
  · exact toNat_ofNat (by omega)
  · exact toNat_ofNat (by omega)

/-- A capture without levels marks the empty text where it stands. -/
theorem marks_nothing {topic before after : Str} (front : List Str)
    (bound : byteLen topic ≤ 65535) (whole : topic = before ++ after) :
    Marks topic front [] (some (UInt16.ofNat (byteLen before), UInt16.ofNat (byteLen before))) := by
  subst whole
  rw [byteLen_append] at bound
  have start : (UInt16.ofNat (byteLen before)).toNat = byteLen before := toNat_ofNat (by omega)
  exact ⟨before, after, _, _, rfl, by simp, start, by simpa
    using start, fun some => absurd rfl some⟩

section Marked

variable {α : Type} {capture : α → Option Nat} {topic : Str} {spans others : Spans}
  {front taken : List Str} {items more : List α} {runs moreRuns : List (List Str)}

def Marked (capture : α → Option Nat) (topic : Str) (spans : Spans) :
    List Str → List α → List (List Str) → Prop
  | front, item :: items, run :: runs =>
      (∀ n ∈ capture item, Marks topic front run spans[n]?) ∧
        Marked capture topic spans (front ++ run) items runs
  | _, _, _ => True

theorem Marked.congr (marked : Marked capture topic spans front items runs)
    (same : ∀ n ∈ captures capture items, others[n]? = spans[n]?) :
    Marked capture topic others front items runs := by
  induction items generalizing front runs with
  | nil => trivial
  | cons item items inductionHypothesis =>
      cases runs with
      | nil => trivial
      | cons run runs =>
          simp only [captures_cons, List.mem_append] at same
          obtain ⟨head, tail⟩ := marked
          refine ⟨?_, inductionHypothesis tail fun n later => same n (.inr later)⟩
          intro n isCapture
          rw [same n (.inl (by simpa using isCapture))]
          exact head n isCapture

theorem Marked.append (first : Marked capture topic spans front items runs)
    (size : runs.length = items.length)
    (second : Marked capture topic spans (front ++ runs.flatten) more moreRuns) :
    Marked capture topic spans front (items ++ more) (runs ++ moreRuns) := by
  induction items generalizing front runs with
  | nil =>
      obtain rfl := List.eq_nil_of_length_eq_zero size
      simpa using second
  | cons item items inductionHypothesis =>
      cases runs with
      | nil => cases size
      | cons run runs =>
          refine ⟨first.1, inductionHypothesis first.2 (Nat.succ.inj size) ?_⟩
          rwa [List.append_assoc, ← List.flatten_cons]

theorem Marked.block (size : taken.length = items.length)
    (first : Marked capture topic spans front items (taken.map fun level => [level]))
    (second : Marked capture topic spans (front ++ taken) more moreRuns) :
    Marked capture topic spans front (items ++ more)
      (taken.map (fun level => [level]) ++ moreRuns) := by
  have flat : (taken.map fun level => [level]).flatten = taken := by
    rw [← List.flatMap_def, List.flatMap_singleton']
  apply first.append (by rw [List.length_map, size])
  rwa [flat]

end Marked

end AimDb.Topic
