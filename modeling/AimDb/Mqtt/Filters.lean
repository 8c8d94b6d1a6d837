import AimDb.Mqtt.Grammar
import AimDb.Wildcard.Rules

/-!
# What MQTT topic filters match

§4.7 read off the filter string: `+` takes one level, `#` absorbs any number of
them, any other level takes itself, and no wildcard takes a first level that
starts with `$`.  The matcher and the covering test both decide it.
-/

namespace AimDb.Mqtt

open Topic Wildcard

/-- A level of a topic or of a filter. It is reserved when it is the first one
and starts with `$`. -/
structure Tagged where
  text : Str
  reserved : Bool
  deriving DecidableEq

def tagFrom : Bool → List Str → List Tagged
  | _, [] => []
  | first, text :: more => ⟨text, first && startsWith '$' text⟩ :: tagFrom false more

def levelsOf (s : Str) : List Tagged := tagFrom true (s.splitOn '/')

def section47 : Rules Tagged Tagged where
  Spans p := p.text = ['#']
  Absorbs s := s.reserved = false
  Takes p s := if p.text = ['+'] then s.reserved = false else s = p

def Matched (filter topic : Str) : Prop :=
  section47.Matches (levelsOf filter) (levelsOf topic)

@[simp]
theorem tagFrom_nil (first : Bool) : tagFrom first [] = [] := by
  cases first <;> rfl

@[simp]
theorem tagFrom_cons (first : Bool) (text : Str) (more : List Str) :
    tagFrom first (text :: more) =
      ⟨text, first && startsWith '$' text⟩ :: tagFrom false more := by
  cases first <;> rfl

theorem tagFrom_false_unreserved {levels : List Str} {s : Tagged}
    (inLevels : s ∈ tagFrom false levels) : s.reserved = false := by
  induction levels with
  | nil => simp at inLevels
  | cons text more inductionHypothesis =>
      rcases List.mem_cons.mp (tagFrom_cons false text more ▸ inLevels) with rfl | later
      · rfl
      · exact inductionHypothesis later

/-- A level takes the level itself, unless it is a wildcard. -/
theorem takes_literal_iff {first : Bool} {p s : Str} (literal : p ≠ ['+']) :
    section47.Takes ⟨p, first && startsWith '$' p⟩ ⟨s, first && startsWith '$' s⟩ ↔
        p = s := by
  simp only [section47, if_neg literal, Tagged.mk.injEq]
  constructor
  · exact fun same => same.1.symm
  · rintro rfl
    exact ⟨rfl, rfl⟩

theorem takes_single_iff (tag : Bool) (s : Tagged) :
    section47.Takes ⟨['+'], tag⟩ s ↔ s.reserved = false := by
  simp [section47]

/-- Filters read against filters: `+` and a plain level stand for no `#`. -/
def covering : Rules Tagged Tagged where
  Spans := section47.Spans
  Absorbs := section47.Absorbs
  Takes p q := ¬ section47.Spans q ∧ section47.Takes p q

theorem unreserved_of_takes {q s : Tagged} (unreserved : q.reserved = false)
    (takes : section47.Takes q s) : s.reserved = false := by
  simp only [section47] at takes
  split at takes
  · exact takes
  · exact takes ▸ unreserved

theorem takes_trans {p q s : Tagged} (first : section47.Takes p q)
    (second : section47.Takes q s) : section47.Takes p s := by
  by_cases single : p.text = ['+']
  · have unreserved : q.reserved = false := by simpa [section47, single] using first
    simpa [section47, single] using unreserved_of_takes unreserved second
  · obtain rfl : q = p := by simpa [section47, single] using first
    exact second

theorem covering_composes_section47 : Rules.Composes covering section47 section47 where
  spans _ := Iff.rfl
  single _ _ takes := takes.1
  takes _ _ _ first second := takes_trans first.2 second
  absorbs_taken _ _ unreserved _ takes := unreserved_of_takes unreserved takes
  absorbs_run _ _ _ _ unreserved := unreserved

theorem covering_composes : Rules.Composes covering covering covering where
  spans _ := Iff.rfl
  single _ _ takes := takes.1
  takes _ _ _ first second := ⟨second.1, takes_trans first.2 second.2⟩
  absorbs_taken _ _ unreserved _ takes := unreserved_of_takes unreserved takes.2
  absorbs_run _ _ _ _ unreserved := unreserved

theorem matches_hash_iff {R : Rules Tagged Tagged} {tag first : Bool} {levels : List Str}
    (spans : R.Spans ⟨['#'], tag⟩) (absorbs : ∀ s, R.Absorbs s ↔ s.reserved = false) :
    R.Matches [⟨['#'], tag⟩] (tagFrom first levels) ↔
      ¬ (first = true ∧ ∃ l ∈ levels.head?, startsWith '$' l = true) := by
  rw [Rules.matches_span_iff spans]
  cases levels with
  | nil => simp
  | cons text more =>
      simp only [tagFrom_cons, List.head?_cons, Option.mem_some_iff, exists_eq_left',
        Rules.matches_nil_iff, absorbs]
      constructor
      · rintro ⟨run, rest, whole, unreserved, rfl⟩ ⟨rfl, dollar⟩
        rw [List.append_nil] at whole
        have head := unreserved _ (whole ▸ List.mem_cons_self)
        simp [dollar] at head
      · intro plain
        refine ⟨_, [], (List.append_nil _).symm, ?_, rfl⟩
        intro s inLevels
        rcases List.mem_cons.mp inLevels with rfl | later
        · exact Bool.eq_false_iff.mpr fun both => plain (Bool.and_eq_true_iff.mp both)
        · exact tagFrom_false_unreserved later

/-- `#` stands nowhere but at the end. -/
def HashLast (levels : List Str) : Prop := ∀ level ∈ levels.dropLast, level ≠ ['#']

theorem HashLast.tail {level : Str} {levels : List Str} (last : HashLast (level :: levels)) :
    HashLast levels := by
  intro other inInit
  cases levels with
  | nil => simp at inInit
  | cons next levels => exact last other (by simp [inInit])

theorem HashLast.nil_of_hash {levels : List Str} (last : HashLast (['#'] :: levels)) :
    levels = [] := by
  cases levels with
  | nil => rfl
  | cons next levels => exact absurd rfl (last ['#'] (by simp))

theorem coversFrom_iff {i : Nat} {a b : List Str} (last : HashLast a) :
    coversFrom i a b = true ↔
      covering.Matches (tagFrom (i == 0) a) (tagFrom (i == 0) b) := by
  induction a generalizing i b with
  | nil => cases b <;> simp [coversFrom]
  | cons x a inductionHypothesis =>
      by_cases hash : x = ['#']
      · subst hash
        obtain rfl := last.nil_of_hash
        rw [tagFrom_cons, tagFrom_nil, matches_hash_iff rfl (fun _ => Iff.rfl)]
        cases b with
        | nil => simp [coversFrom]
        | cons y b => cases i <;> simp [coversFrom]
      · have single : ¬ covering.Spans ⟨x, (i == 0) && startsWith '$' x⟩ := hash
        cases b with
        | nil => simp [coversFrom, hash, Rules.not_matches_take_nil single]
        | cons y b =>
            have tails : coversFrom (i + 1) a b = true ↔ _ := inductionHypothesis last.tail
            rw [show (i + 1 == 0) = false from rfl] at tails
            rw [tagFrom_cons, tagFrom_cons, Rules.matches_take_cons_iff single, ← tails,
              coversFrom, if_neg hash]
            change _ ↔ (¬ y = ['#'] ∧ section47.Takes _ _) ∧ _
            by_cases plus : x = ['+']
            · subst plus
              by_cases hashY : y = ['#']
              · simp [hashY]
              · rw [takes_single_iff]
                cases i <;> simp [hashY]
            · rw [takes_literal_iff plus]
              by_cases same : x = y
              · subst same
                simp [plus, hash]
              · simp [plus, same]

/-- What `compile` leaves: plain literals, one wildcard to a level, `#` last, and
the filter string that spells the levels. -/
structure MqttFilter.Valid (f : MqttFilter) : Prop where
  filter : f.filter = join ['/'] (f.levels.map Level.render)
  nonempty : f.levels ≠ []
  cut : ∀ level ∈ f.levels, '/' ∉ level.render
  plain : ∀ text, .literal text ∈ f.levels → text ≠ ['+'] ∧ text ≠ ['#']
  last : HashLast (f.levels.map Level.render)

theorem Level.classify_spec {topic : Str} {raw : RawSegment} {level : Level}
    (cut : '/' ∉ raw.text) (classified : Level.classify topic raw = .ok level) :
    '/' ∉ level.render ∧ (∀ text, level = .literal text →
        text ≠ ['+'] ∧ text ≠ ['#']) := by
  rw [Level.classify] at classified
  split at classified
  · split at classified
    · simp at classified
    · obtain rfl := Except.ok.inj classified
      split <;> simp [Level.render]
  · split at classified
    · obtain rfl := Except.ok.inj classified
      simp [Level.render]
    · split at classified
      · obtain rfl := Except.ok.inj classified
        simp [Level.render]
      · split at classified
        · simp at classified
        · obtain rfl := Except.ok.inj classified
          simp_all [Level.render]

theorem Level.isMulti_of_render {level : Level}
    (plain : ∀ text, level = .literal text → text ≠ ['+'] ∧ text ≠ ['#'])
    (hash : level.render = ['#']) : level.isMulti = true := by
  cases level with
  | literal text => exact absurd hash (plain text rfl).2
  | single capture => simp [Level.render] at hash
  | multi capture => rfl

theorem Level.compileAll_spec {topic : Str} {raw : List RawSegment} {levels : List Level}
    (cut : ∀ segment ∈ raw, '/' ∉ segment.text)
    (compiled : Level.compileAll topic raw = .ok levels) :
    levels.length = raw.length ∧ (∀ level ∈ levels, '/' ∉ level.render) ∧
      (∀ text, .literal text ∈ levels → text ≠ ['+'] ∧ text ≠ ['#']) ∧
      HashLast (levels.map Level.render) := by
  induction raw generalizing levels with
  | nil =>
      obtain rfl : [] = levels := by simpa [Level.compileAll] using compiled
      simp [HashLast]
  | cons segment raw inductionHypothesis =>
      rw [Level.compileAll] at compiled
      obtain ⟨level, classified, compiled⟩ := bind_eq_ok compiled
      obtain ⟨cutHead, plainHead⟩ := Level.classify_spec (cut segment (by simp)) classified
      split at compiled
      · simp at compiled
      · rename_i notInner
        obtain ⟨more, rest, compiled⟩ := bind_eq_ok compiled
        obtain rfl := Except.ok.inj compiled
        obtain ⟨length, cuts, plains, last⟩ := inductionHypothesis
          (fun other inRaw => cut other (by simp [inRaw])) rest
        refine ⟨by simp [length], ?_, ?_, ?_⟩
        · simpa using ⟨cutHead, cuts⟩
        · intro text inLevels
          rcases List.mem_cons.mp inLevels with here | later
          · exact plainHead text here.symm
          · exact plains text later
        · intro other inInit
          cases more with
          | nil => simp at inInit
          | cons next more =>
              rcases List.mem_cons.mp inInit with rfl | later
              · intro hash
                have multi := Level.isMulti_of_render plainHead hash
                have followed : raw.isEmpty = false := by
                  cases raw <;> simp_all
                exact notInner (by simp [multi, followed])
              · exact last other later

theorem compileFilter_valid {pattern : TopicPattern} {f : MqttFilter}
    (compiled : compileFilter pattern = .ok f) : f.Valid := by
  rw [compileFilter] at compiled
  obtain ⟨raw, built, compiled⟩ := bind_eq_ok compiled
  obtain ⟨levels, all, compiled⟩ := bind_eq_ok compiled
  obtain rfl := Except.ok.inj compiled
  obtain ⟨length, cuts, plains, last⟩ :=
    Level.compileAll_spec (RawSegments.ofParts_cut built) all
  refine ⟨rfl, ?_, cuts, plains, last⟩
  rintro (rfl : levels = [])
  apply RawSegments.ofParts_ne_nil built
  exact List.eq_nil_of_length_eq_zero length.symm

theorem MqttFilter.Valid.splitOn_filter {f : MqttFilter} (valid : f.Valid) :
    f.filter.splitOn '/' = f.levels.map Level.render := by
  rw [valid.filter, join]
  apply List.splitOn_intercalate
  · intro text inLevels
    obtain ⟨level, isLevel, rfl⟩ := List.mem_map.mp inLevels
    exact valid.cut level isLevel
  · simpa using valid.nonempty

def leftLevels (rest : Option Str) : List Str :=
  match rest with
  | none => []
  | some r => r.splitOn '/'

theorem leftLevels_some (r : Str) :
    leftLevels (some r) = (splitOnce r).1 :: leftLevels (splitOnce r).2 := by
  rw [leftLevels, splitOn_eq_takeWhile_cons, splitOnce]
  cases after : r.dropWhile (· != '/') with
  | nil =>
      have whole := List.takeWhile_append_dropWhile (p := (· != '/')) (l := r)
      rw [after, List.append_nil] at whole
      simp [leftLevels, whole]
  | cons slash next => rfl

theorem startsWith_splitOnce (r : Str) : startsWith '$' (splitOnce r).1 = startsWith '$' r := by
  cases r with
  | nil => rfl
  | cons c r =>
      rw [splitOnce]
      by_cases slash : c = '/'
      · subst slash
        simp
      · cases after : (c :: r).dropWhile (· != '/') with
        | nil => rfl
        | cons d next => simp [slash]

theorem matchFrom_iff {topic : Str} {i : Nat} {levels : List Level} {rest : Option Str}
    {pos : Nat} {spans : Spans}
    (plain : ∀ text, .literal text ∈ levels → text ≠ ['+'] ∧ text ≠ ['#'])
    (last : HashLast (levels.map Level.render)) (start : i = 0 → rest = some topic) :
    (MqttFilter.matchFrom topic i levels rest pos spans).1 = true ↔
      section47.Matches (tagFrom (i == 0) (levels.map Level.render))
        (tagFrom (i == 0) (leftLevels rest)) := by
  induction levels generalizing i rest pos spans with
  | nil =>
      cases rest with
      | none => simp [MqttFilter.matchFrom, leftLevels]
      | some r => simp [MqttFilter.matchFrom, leftLevels_some]
  | cons level levels inductionHypothesis =>
      have tails : ∀ next pos spans,
          (MqttFilter.matchFrom topic (i + 1) levels next pos spans).1 = true ↔
            section47.Matches (tagFrom false (levels.map Level.render))
              (tagFrom false (leftLevels next)) := by
        intro next pos spans
        apply inductionHypothesis _ last.tail
        · exact fun impossible => absurd impossible (Nat.succ_ne_zero i)
        · exact fun text later => plain text (by simp [later])
      rw [List.map_cons, tagFrom_cons]
      cases level with
      | multi capture =>
          obtain none : levels.map Level.render = [] := last.nil_of_hash
          rw [none, tagFrom_nil, Level.render, matches_hash_iff rfl (fun _ => Iff.rfl)]
          cases i with
          | zero =>
              obtain rfl := start rfl
              simp only [MqttFilter.matchFrom, leftLevels_some]
              cases dollar : startsWith '$' topic <;> simp [dollar, startsWith_splitOnce]
          | succ i => simp [MqttFilter.matchFrom]
      | literal lit =>
          obtain ⟨plus, hash⟩ := plain lit (by simp)
          have single : ¬ section47.Spans ⟨lit, (i == 0) && startsWith '$' lit⟩ := hash
          cases rest with
          | none =>
              rw [leftLevels, tagFrom_nil]
              exact iff_of_false (by simp [MqttFilter.matchFrom])
                (Rules.not_matches_take_nil single)
          | some r =>
              rw [leftLevels_some, tagFrom_cons, Level.render,
                Rules.matches_take_cons_iff single, takes_literal_iff plus, MqttFilter.matchFrom]
              by_cases same : lit = (splitOnce r).1
              · simp [← same, tails]
              · simp [same]
      | single capture =>
          have single : ¬ section47.Spans ⟨['+'], (i == 0) && startsWith '$' ['+']⟩ := by
            simp [section47]
          cases rest with
          | none =>
              rw [leftLevels, tagFrom_nil]
              exact iff_of_false (by simp [MqttFilter.matchFrom])
                (Rules.not_matches_take_nil single)
          | some r =>
              rw [leftLevels_some, tagFrom_cons, Level.render,
                Rules.matches_take_cons_iff single, takes_single_iff, MqttFilter.matchFrom]
              by_cases reserved : (i == 0 && startsWith '$' (splitOnce r).1) = true
              · simp [reserved]
              · simp [reserved, tails]

theorem MqttFilter.Valid.isMatch_iff {f : MqttFilter} (valid : f.Valid) (topic : Str)
    (spans : Spans) : (f.isMatch topic spans).1 = true ↔ Matched f.filter topic := by
  rw [MqttFilter.isMatch, matchFrom_iff valid.plain valid.last (fun _ => rfl), Matched, levelsOf,
    levelsOf, valid.splitOn_filter]
  rfl

/-- A filter string `compile` makes. -/
def IsFilter (filter : Str) : Prop := ∃ f : MqttFilter, f.Valid ∧ f.filter = filter

theorem IsFilter.hashLast {filter : Str} (isFilter : IsFilter filter) :
    HashLast (filter.splitOn '/') := by
  obtain ⟨f, valid, rfl⟩ := isFilter
  rw [valid.splitOn_filter]
  exact valid.last

theorem IsFilter.covers_iff {a : Str} (isFilter : IsFilter a) (b : Str) :
    covers a b = true ↔ covering.Matches (levelsOf a) (levelsOf b) :=
  coversFrom_iff isFilter.hashLast

theorem IsFilter.matched_of_covers {a b topic : Str} (isFilter : IsFilter a)
    (covered : covers a b = true) (matched : Matched b topic) : Matched a topic :=
  ((isFilter.covers_iff b).mp covered).comp covering_composes_section47 matched

theorem IsFilter.covers_trans {a b c : Str} (isFilterA : IsFilter a) (isFilterB : IsFilter b)
    (first : covers a b = true) (second : covers b c = true) : covers a c = true := by
  rw [isFilterA.covers_iff] at first ⊢
  rw [isFilterB.covers_iff] at second
  exact first.comp covering_composes second

theorem tagFrom_reserved {first : Bool} {levels : List Str} {tagged : Tagged}
    (inLevels : tagged ∈ tagFrom first levels) (reserved : tagged.reserved = true) :
    startsWith '$' tagged.text = true := by
  cases levels with
  | nil => simp at inLevels
  | cons text more =>
      rw [tagFrom_cons] at inLevels
      rcases List.mem_cons.mp inLevels with rfl | later
      · exact (Bool.and_eq_true_iff.mp reserved).2
      · rw [tagFrom_false_unreserved later] at reserved
        cases reserved

theorem IsFilter.covers_refl {a : Str} (isFilter : IsFilter a) : covers a a = true := by
  rw [isFilter.covers_iff]
  have wildcard : ∀ tagged ∈ levelsOf a, tagged.text = ['#'] ∨ tagged.text = ['+'] →
      tagged.reserved = false := by
    intro tagged inLevels wild
    rw [Bool.eq_false_iff]
    intro reserved
    have dollar := tagFrom_reserved inLevels reserved
    rcases wild with hash | plus <;> simp_all
  apply Rules.matches_refl
  · exact fun tagged inLevels hash => wildcard tagged inLevels (.inl hash)
  · intro tagged inLevels single
    refine ⟨single, ?_⟩
    by_cases plus : tagged.text = ['+']
    · simpa [section47, plus] using wildcard tagged inLevels (.inr plus)
    · simp [section47, plus]

end AimDb.Mqtt
