import AimDb.Mqtt.Subscriptions
import AimDb.Topic.Captures

/-!
# Matching a topic

The matcher decides §4.7, and its captures mark the levels they stand for: one
level for `{name}`, and for `{name..}` whatever the levels before it leave.
-/

namespace AimDb.Mqtt

open Topic Wildcard

namespace Level

def capture : Level → Option Nat
  | literal _ => none
  | single capture => capture
  | multi capture => capture

theorem classify_capture {topic : Str} {raw : RawSegment} {level : Level}
    (ok : classify topic raw = .ok level) : level.capture = raw.capture.map Prod.fst := by
  rw [classify] at ok
  split at ok
  · rename_i n isMulti numbered
    split at ok
    · cases ok
    · obtain rfl := Except.ok.inj ok
      rw [numbered]
      split <;> rfl
  · rename_i plain
    rw [plain]
    split at ok
    · obtain rfl := Except.ok.inj ok
      rfl
    · split at ok
      · obtain rfl := Except.ok.inj ok
        rfl
      · split at ok
        · cases ok
        · obtain rfl := Except.ok.inj ok
          rfl

theorem compileAll_paired {topic : Str} {raw : List RawSegment} {levels : List Level}
    (compiled : compileAll topic raw = .ok levels) :
    List.Forall₂ (fun segment level => classify topic segment = .ok level) raw levels := by
  induction raw generalizing levels with
  | nil =>
      obtain rfl : [] = levels := by simpa [compileAll] using compiled
      exact .nil
  | cons segment raw inductionHypothesis =>
      rw [compileAll] at compiled
      obtain ⟨level, classified, compiled⟩ := bind_eq_ok compiled
      split at compiled
      · cases compiled
      · obtain ⟨more, rest, compiled⟩ := bind_eq_ok compiled
        obtain rfl := Except.ok.inj compiled
        exact .cons classified (inductionHypothesis rest)

end Level

theorem compileFilter_slots {topic : Str} {pattern : TopicPattern} {f : MqttFilter}
    (parsed : TopicPattern.parse topic = .ok pattern) (compiled : compileFilter pattern = .ok f) :
    Slots Level.capture f.levels := by
  apply slots_of_parse parsed
  rw [compileFilter] at compiled
  obtain ⟨raw, built, compiled⟩ := bind_eq_ok compiled
  obtain ⟨levels, all, compiled⟩ := bind_eq_ok compiled
  obtain rfl := Except.ok.inj compiled
  rw [← RawSegments.ofParts_numbers built]
  exact captures_of_compiled Level.classify_capture (Level.compileAll_paired all)

/-- The levels of the topic each level of the filter has: one each, and for `#`
all that are left. -/
def Level.parts : List Level → List Str → List (List Str)
  | .multi _ :: _, levels => [levels]
  | _ :: filter, level :: levels => [level] :: parts filter levels
  | _, _ => []

structure Divided (filter : List Level) (levels : List Str) : Prop where
  size : (Level.parts filter levels).length = filter.length
  whole : (Level.parts filter levels).flatten = levels

theorem matchFrom_divided {topic : Str} {i : Nat} {levels : List Level} {rest : Option Str}
    {pos : Nat} {spans : Spans} (last : HashLast (levels.map Level.render))
    (matched : (MqttFilter.matchFrom topic i levels rest pos spans).1 = true) :
    Divided levels (leftLevels rest) := by
  induction levels generalizing i rest pos spans with
  | nil =>
      obtain rfl : rest = none := by simpa [MqttFilter.matchFrom] using matched
      exact ⟨rfl, rfl⟩
  | cons level levels inductionHypothesis =>
      cases level with
      | multi capture =>
          obtain none : levels.map Level.render = [] := last.nil_of_hash
          rw [List.map_eq_nil_iff] at none
          subst none
          exact ⟨rfl, by simp [Level.parts]⟩
      | literal lit =>
          cases rest with
          | none => cases matched
          | some r =>
              simp only [MqttFilter.matchFrom] at matched
              split at matched
              · cases matched
              · obtain ⟨size, whole⟩ := inductionHypothesis last.tail matched
                rw [leftLevels_some]
                exact ⟨by simp [Level.parts, size], by simp [Level.parts, whole]⟩
      | single capture =>
          cases rest with
          | none => cases matched
          | some r =>
              simp only [MqttFilter.matchFrom] at matched
              split at matched
              · cases matched
              · obtain ⟨size, whole⟩ := inductionHypothesis last.tail matched
                rw [leftLevels_some]
                exact ⟨by simp [Level.parts, size], by simp [Level.parts, whole]⟩

theorem matchFrom_frame {topic : Str} {i : Nat} {levels : List Level} {rest : Option Str}
    {pos : Nat} {spans : Spans} {n : Nat} (other : n ∉ captures Level.capture levels) :
    (MqttFilter.matchFrom topic i levels rest pos spans).2[n]? = spans[n]? := by
  induction levels generalizing i rest pos spans with
  | nil => rfl
  | cons level levels inductionHypothesis =>
      rw [captures_cons, List.mem_append, not_or] at other
      obtain ⟨notHere, later⟩ := other
      have kept : ∀ start stop, (spans.capture level.capture start stop)[n]? = spans[n]? :=
        fun _ _ => capture_of_ne (by simpa using notHere)
      cases level with
      | multi capture =>
          simp only [MqttFilter.matchFrom]
          split
          · rfl
          · exact kept _ _
      | literal lit =>
          cases rest with
          | none => rfl
          | some r =>
              simp only [MqttFilter.matchFrom]
              split
              · rfl
              · exact inductionHypothesis later
      | single capture =>
          cases rest with
          | none => rfl
          | some r =>
              simp only [MqttFilter.matchFrom]
              split
              · rfl
              · rw [inductionHypothesis later]
                exact kept _ _

theorem byteLen_lead_concat (front : List Str) (level : Str) :
    byteLen (lead '/' front) + byteLen level + 1 = byteLen (lead '/' (front ++ [level])) := by
  rw [lead_append, byteLen_append, byteLen_lead_singleton, Nat.add_assoc]

theorem matchFrom_marked {topic : Str} {i : Nat} {levels : List Level} {rest : Option Str}
    {pos : Nat} {spans : Spans} {front : List Str} (bound : byteLen topic ≤ 65535)
    (slots : Slots Level.capture levels) (whole : topic = join ['/'] (front ++ leftLevels rest))
    (here : rest ≠ none → pos = byteLen (lead '/' front))
    (matched : (MqttFilter.matchFrom topic i levels rest pos spans).1 = true) :
    Marked Level.capture topic (MqttFilter.matchFrom topic i levels rest pos spans).2 front levels
      (Level.parts levels (leftLevels rest)) := by
  induction levels generalizing i rest pos spans front with
  | nil => trivial
  | cons level levels inductionHypothesis =>
      have step : ∀ {r pos spans}, topic = join ['/'] (front ++ leftLevels (some r)) →
          pos = byteLen (lead '/' front) →
          (MqttFilter.matchFrom topic (i + 1) levels (splitOnce r).2
            (pos + byteLen (splitOnce r).1 + 1) spans).1 = true →
          Marked Level.capture topic (MqttFilter.matchFrom topic (i + 1) levels (splitOnce r).2
            (pos + byteLen (splitOnce r).1 + 1) spans).2 (front ++ [(splitOnce r).1]) levels
            (Level.parts levels (leftLevels (splitOnce r).2)) := by
        rintro r pos spans whole rfl matched
        apply inductionHypothesis slots.tail _ _ matched
        · rw [whole, leftLevels_some, List.append_assoc]
          rfl
        · exact fun _ => byteLen_lead_concat front _
      cases level with
      | multi capture =>
          simp only [MqttFilter.matchFrom] at matched ⊢
          split at matched
          · cases matched
          · rename_i free
            rw [if_neg free]
            refine ⟨?_, by cases levels <;> trivial⟩
            intro n isCapture
            obtain rfl : capture = some n := isCapture
            rw [capture_self (slots.head_lt rfl)]
            cases rest with
            | none => exact marks_nothing front bound (List.append_nil topic).symm
            | some r =>
                have some : leftLevels (.some r) ≠ [] := List.splitOn_ne_nil _ _
                have text : topic = join ['/'] (front ++ (leftLevels (.some r) ++ [])) := by
                  rwa [List.append_nil]
                have marks := marks_text bound text some
                have size := congrArg byteLen (whole.trans (join_append front some))
                rw [byteLen_append] at size
                rw [← size, ← here (by simp)] at marks
                exact marks
      | literal lit =>
          cases rest with
          | none => cases matched
          | some r =>
              simp only [MqttFilter.matchFrom] at matched ⊢
              split at matched
              · cases matched
              · rename_i same
                rw [if_neg same, leftLevels_some]
                exact ⟨fun n isCapture => (by cases isCapture),
                  step whole (here (by simp)) matched⟩
      | single capture =>
          cases rest with
          | none => cases matched
          | some r =>
              simp only [MqttFilter.matchFrom] at matched ⊢
              split at matched
              · cases matched
              · rename_i free
                rw [if_neg free, leftLevels_some]
                refine ⟨?_, step whole (here (by simp)) matched⟩
                intro n isCapture
                obtain rfl : capture = some n := isCapture
                rw [matchFrom_frame (slots.head_not_mem rfl), capture_self (slots.head_lt rfl),
                  here (by simp)]
                have text : topic = join ['/']
                    (front ++ ([(splitOnce r).1] ++ leftLevels (splitOnce r).2)) := by
                  rwa [leftLevels_some] at whole
                have marks := marks_text bound text (by simp)
                simpa [join] using marks

theorem eq_of_matches_plain {first : Bool} {filter levels : List Str}
    (plain : ∀ text ∈ filter, text ≠ ['+'] ∧ text ≠ ['#'])
    (matched : section47.Matches (tagFrom first filter) (tagFrom first levels)) :
    filter = levels := by
  induction filter generalizing first levels with
  | nil =>
      rw [tagFrom_nil, Rules.matches_nil_iff] at matched
      cases levels with
      | nil => rfl
      | cons level levels => simp at matched
  | cons text filter inductionHypothesis =>
      obtain ⟨plus, hash⟩ := plain text (by simp)
      have single : ¬ section47.Spans ⟨text, first && startsWith '$' text⟩ := hash
      rw [tagFrom_cons] at matched
      cases levels with
      | nil => exact absurd matched (Rules.not_matches_take_nil single)
      | cons level levels =>
          rw [tagFrom_cons, Rules.matches_take_cons_iff single, takes_literal_iff plus] at matched
          obtain ⟨rfl, tail⟩ := matched
          rw [inductionHypothesis (fun other later => plain other (by simp [later])) tail]

theorem MqttFilter.Valid.isMatch_of_literal {f : MqttFilter} (valid : f.Valid)
    (literal : f.isLiteral = true) (topic : Str) (spans : Spans) :
    (f.isMatch topic spans).1 = true ↔ f.filter = topic := by
  rw [valid.isMatch_iff]
  constructor
  · intro matched
    apply @splitOn_injective _ _ '/'
    apply eq_of_matches_plain _ matched
    rw [valid.splitOn_filter]
    intro text isText
    obtain ⟨level, isLevel, rfl⟩ := List.mem_map.mp isText
    have isLiteral := List.all_eq_true.mp literal level isLevel
    cases level with
    | literal text => exact valid.plain text isLevel
    | single capture => cases isLiteral
    | multi capture => cases isLiteral
  · rintro rfl
    exact valid.matched_of_literal literal

/-- The matcher decides §4.7 and marks its captures; the router compares a
pattern without wildcards as a string, and a filter matches whatever one it
covers matches. -/
structure MqttFilter.Exact (f : MqttFilter) (topic : Str) (spans : Spans) : Prop where
  accepts : (f.isMatch topic spans).1 = true ↔ Matched f.filter topic
  marks : (f.isMatch topic spans).1 = true → Divided f.levels (topic.splitOn '/') ∧
    Marked Level.capture topic (f.isMatch topic spans).2 [] f.levels
      (Level.parts f.levels (topic.splitOn '/'))
  plain : f.isLiteral = true → ∀ names key,
    (f.isMatch topic spans).1 =
      ((Router.CompiledRoute.pattern f.asTopicFilter names key).isMatch topic spans).1
  covers : ∀ pattern g, compileFilter pattern = .ok g → Mqtt.covers f.filter g.filter = true →
    (g.isMatch topic spans).1 = true → (f.isMatch topic spans).1 = true

/-- Matching a topic against a compiled pattern is exact. -/
theorem section47_exact {topic : Str} {pattern : TopicPattern} {f : MqttFilter}
    (parsed : TopicPattern.parse topic = .ok pattern) (compiled : compileFilter pattern = .ok f)
    {message : Str} (bound : byteLen message ≤ 65535) (spans : Spans) :
    f.Exact message spans where
  accepts := (compileFilter_valid compiled).isMatch_iff message spans
  marks matched := by
    have valid := compileFilter_valid compiled
    refine ⟨matchFrom_divided valid.last matched, ?_⟩
    have whole : message = join ['/'] ([] ++ leftLevels (some message)) :=
      (List.intercalate_splitOn '/').symm
    rw [MqttFilter.isMatch] at matched ⊢
    exact matchFrom_marked bound (compileFilter_slots parsed compiled) whole (fun _ => rfl) matched
  plain literal names key := by
    rw [Bool.eq_iff_iff, (compileFilter_valid compiled).isMatch_of_literal literal]
    change _ ↔ (Router.CompiledRoute.isMatch ⟨f.filter, if f.isLiteral then none else _, names,
      key⟩ message spans).1 = true
    rw [literal, Router.CompiledRoute.isMatch]
    exact beq_iff_eq.symm
  covers other g compiledG covered matched := by
    have validG := compileFilter_valid compiledG
    have valid := compileFilter_valid compiled
    rw [valid.isMatch_iff]
    rw [validG.isMatch_iff] at matched
    exact IsFilter.matched_of_covers ⟨f, valid, rfl⟩ covered matched

/-- `{site}/{rest..}` as parsed and compiled. -/
def sitePattern : TopicPattern :=
  ⟨"{site}/{rest..}".toList,
    [.capture "site".toList false, .text ['/'], .capture "rest".toList true]⟩

def siteFilter : MqttFilter := ⟨"+/#".toList, [.single (some 0), .multi (some 1)]⟩

theorem section47_exact_site :
    TopicPattern.parse "{site}/{rest..}".toList = .ok sitePattern ∧
      compileFilter sitePattern = .ok siteFilter ∧
      siteFilter.Exact "plant//cell".toList .fresh := by
  have parsed : TopicPattern.parse "{site}/{rest..}".toList = .ok sitePattern := by decide +kernel
  have compiled : compileFilter sitePattern = .ok siteFilter := by decide
  exact ⟨parsed, compiled, section47_exact parsed compiled (by decide) .fresh⟩

end AimDb.Mqtt
