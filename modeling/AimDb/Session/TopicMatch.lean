import Mathlib.Data.List.Basic
import Mathlib.Tactic.Common

/-!
# Topic pattern matching over dot-separated record keys

`topicMatches` and `patternContains` share one segment walk and differ only in
when a pattern segment covers a subject segment.  The walk keeps the most
recent `#` as its single backtrack point.
-/

namespace AimDb.Session.TopicMatch

/-- `str::split('.')`: never empty, and the empty string is one empty segment. -/
def segments (s : String) : List String :=
  (s.toList.splitOn '.').map String.ofList

/-- The walk between two turns of its loop.  `resume` pairs the pattern tail
after the most recent `#` with the subject position that `#` currently stops
absorbing at. -/
structure Walk where
  pat : List String
  sub : List String
  resume : Option (List String × List String)
  deriving DecidableEq

inductive Turn where
  | done (answer : Bool)
  | next (walk : Walk)
  deriving DecidableEq

namespace Walk

/-- The last arm: let the most recent `#` swallow one more subject segment. -/
def backtrack (walk : Walk) : Turn :=
  match walk.resume with
  | none => .done false
  | some (_, []) => .done false
  | some (patAfterHash, _ :: grown) =>
      .next ⟨patAfterHash, grown, some (patAfterHash, grown)⟩

/-- The loop body of `match_segments`. -/
def turn (covers : String → String → Bool) (walk : Walk) : Turn :=
  match walk.pat, walk.sub with
  | p :: patRest, sub =>
      if p = "#" then
        -- `#` starts out absorbing nothing; `resume` is how it grows
        .next ⟨patRest, sub, some (patRest, sub)⟩
      else
        match sub with
        | s :: subRest =>
            if covers p s then .next ⟨patRest, subRest, walk.resume⟩ else walk.backtrack
        | [] => walk.backtrack
  | [], [] => .done true
  | [], _ :: _ => walk.backtrack

def Stuck (covers : String → String → Bool) (walk : Walk) : Prop :=
  match walk.pat, walk.sub with
  | p :: _, s :: _ => p ≠ "#" ∧ covers p s = false
  | p :: _, [] => p ≠ "#"
  | [], sub => sub ≠ []

theorem turn_cases (covers : String → String → Bool) (walk : Walk) :
    (∃ patRest, walk.pat = "#" :: patRest ∧
      walk.turn covers = .next ⟨patRest, walk.sub, some (patRest, walk.sub)⟩) ∨
    (∃ p patRest s subRest, walk.pat = p :: patRest ∧ walk.sub = s :: subRest ∧
      p ≠ "#" ∧ covers p s = true ∧
      walk.turn covers = .next ⟨patRest, subRest, walk.resume⟩) ∨
    (walk.pat = [] ∧ walk.sub = [] ∧ walk.turn covers = .done true) ∨
    (walk.Stuck covers ∧ walk.turn covers = walk.backtrack) := by
  obtain ⟨pat, sub, resume⟩ := walk
  rcases pat with _ | ⟨p, patRest⟩
  · rcases sub with _ | ⟨s, subRest⟩
    · exact .inr (.inr (.inl ⟨rfl, rfl, rfl⟩))
    · exact .inr (.inr (.inr ⟨by simp [Stuck], rfl⟩))
  · by_cases hash : p = "#"
    · subst hash
      exact .inl ⟨patRest, rfl, rfl⟩
    · rcases sub with _ | ⟨s, subRest⟩
      · exact .inr (.inr (.inr ⟨hash, by simp [turn, hash]⟩))
      · cases covered : covers p s with
        | true => exact .inr (.inl ⟨p, patRest, s, subRest, rfl, rfl, hash, covered,
            by simp [turn, hash, covered]⟩)
        | false => exact .inr (.inr (.inr ⟨⟨hash, covered⟩, by simp [turn, hash, covered]⟩))

theorem backtrack_cases (walk : Walk) :
    (∃ patAfterHash s grown, walk.resume = some (patAfterHash, s :: grown) ∧
      walk.backtrack = .next ⟨patAfterHash, grown, some (patAfterHash, grown)⟩) ∨
    ((∀ patAfterHash s grown, walk.resume ≠ some (patAfterHash, s :: grown)) ∧
      walk.backtrack = .done false) := by
  obtain ⟨pat, sub, _ | ⟨patAfterHash, _ | ⟨s, grown⟩⟩⟩ := walk
  · exact .inr ⟨by simp, rfl⟩
  · exact .inr ⟨by simp, rfl⟩
  · exact .inl ⟨patAfterHash, s, grown, rfl, rfl⟩

/-- The longest pattern tail the walk can still be sent to. -/
def reach (walk : Walk) : ℕ :=
  max walk.pat.length (walk.resume.elim 0 fun r => r.1.length)

/-- How often the current `#` can still grow. -/
def growth (walk : Walk) : ℕ :=
  walk.resume.elim 0 fun r => r.2.length

/-- A `#` shortens the reach, a fallback uses up growth, and a covered segment
shortens the pattern, so the loop ends. -/
theorem turn_decreases {covers : String → String → Bool} {walk next : Walk}
    (turned : walk.turn covers = .next next) :
    Prod.Lex (· < ·) (Prod.Lex (· < ·) (· < ·))
      (next.reach, next.growth, next.pat.length) (walk.reach, walk.growth, walk.pat.length) := by
  simp only [Prod.lex_def, reach, growth]
  rcases turn_cases covers walk with ⟨patRest, pat, hash⟩ |
    ⟨p, patRest, s, subRest, pat, -, -, -, cover⟩ | ⟨-, -, accept⟩ | ⟨-, stuck⟩
  · obtain rfl : _ = next := by simpa [hash] using turned
    simp only [pat, List.length_cons, Option.elim_some]
    omega
  · obtain rfl : _ = next := by simpa [cover] using turned
    simp [pat]
    omega
  · simp [accept] at turned
  · rw [stuck] at turned
    rcases walk.backtrack_cases with ⟨patAfterHash, s, grown, resume, grow⟩ | ⟨-, give⟩
    · obtain rfl : _ = next := by simpa [grow] using turned
      simp [resume]
      omega
    · simp [give] at turned

/-- The loop of `match_segments`, from any of its states. -/
def run (covers : String → String → Bool) (walk : Walk) : Bool :=
  match _turned : walk.turn covers with
  | .done answer => answer
  | .next next => run covers next
termination_by (walk.reach, walk.growth, walk.pat.length)
decreasing_by exact turn_decreases _turned

end Walk

/-- Segment walk shared by `topicMatches` and `patternContains`. -/
def matchSegments (pattern subject : String) (covers : String → String → Bool) : Bool :=
  Walk.run covers ⟨segments pattern, segments subject, none⟩

def segmentMatches (p t : String) : Bool := p == "*" || p == t

/-- Returns `true` if `topic` matches `pattern`. -/
def topicMatches (pattern topic : String) : Bool :=
  if pattern = topic then true
  else if pattern = "#" then true
  else
    match pattern.toList.dropSuffix? ".#".toList with
    | some stem =>
        if !stem.contains '*' && !stem.contains '#' then
          -- the byte after the prefix is `.` exactly when the next character is
          stem.isPrefixOf topic.toList &&
            (topic.toList.length == stem.length || topic.toList[stem.length]? == some '.')
        else matchSegments pattern topic segmentMatches
    | none => matchSegments pattern topic segmentMatches

/-- Returns `true` if `pattern` contains a wildcard character. -/
def isWildcard (pattern : String) : Bool :=
  pattern.toList.contains '#' || pattern.toList.contains '*'

def segmentContains (g r : String) : Bool :=
  if g = "*" then r != "#" else g == r

/-- Returns `true` if every topic matched by `requested` is also matched by
`grant`, decided segment by segment. -/
def patternContains (grant requested : String) : Bool :=
  matchSegments grant requested segmentContains

end AimDb.Session.TopicMatch
