import AimDb.Fallible
import AimDb.Wildcard.Split
import Mathlib.Algebra.GroupWithZero.Nat

/-!
# Inbound topic patterns

`{name}` captures one level and `{name..}` the rest.  What a wildcard matches is
up to the connector's grammar; both grammars cut a pattern into raw segments in
the same way.
-/

namespace AimDb.Topic

abbrev Str := List Char

/-- `str::len`, in bytes. -/
def byteLen (s : Str) : Nat :=
  (s.map Char.utf8Size).sum

@[simp]
theorem byteLen_nil : byteLen [] = 0 := rfl

@[simp]
theorem byteLen_cons (c : Char) (s : Str) : byteLen (c :: s) = c.utf8Size + byteLen s := by
  simp [byteLen]

@[simp]
theorem byteLen_append (s t : Str) : byteLen (s ++ t) = byteLen s + byteLen t := by
  simp [byteLen]

/-- `str::starts_with` for a character. -/
def startsWith (c : Char) (s : Str) : Bool :=
  s.head? == some c

@[simp]
theorem startsWith_cons (c d : Char) (s : Str) : startsWith c (d :: s) = (d == c) := by
  simp [startsWith]

@[simp]
theorem startsWith_nil (c : Char) : startsWith c [] = false := rfl

/-- `slice::join`. -/
def join (separator : Str) (pieces : List Str) : Str :=
  separator.intercalate pieces

def maxCaptures : Nat := 8

abbrev Spans := Vector (UInt16 × UInt16) maxCaptures

def Spans.fresh : Spans := Vector.replicate maxCaptures (0, 0)

/-- `spans[n] = (start as u16, stop as u16)`; no pattern has more captures than
the array has slots. -/
def Spans.write (spans : Spans) (n start stop : Nat) : Spans :=
  spans.setIfInBounds n (UInt16.ofNat start, UInt16.ofNat stop)

def Spans.capture (spans : Spans) (capture : Option Nat) (start stop : Nat) : Spans :=
  match capture with
  | none => spans
  | some n => spans.write n start stop

inductive PatternPart where
  | text (text : Str)
  | capture (name : Str) (multi : Bool)
  deriving DecidableEq, Repr

/-- A topic with valid `{…}` syntax. -/
structure TopicPattern where
  topic : Str
  parts : List PatternPart
  deriving DecidableEq, Repr

namespace TopicPattern

def isBrace (c : Char) : Bool := c == '{' || c == '}'

/-- The text before the first brace, and what follows from it. -/
def findBrace (s : Str) : Str × Str :=
  (s.takeWhile fun c => !isBrace c, s.dropWhile fun c => !isBrace c)

theorem findBrace_length (s : Str) : (findBrace s).2.length ≤ s.length :=
  (List.dropWhile_suffix _).length_le

/-- `body.strip_suffix("..")`. -/
def stripDots (body : Str) : Str × Bool :=
  match "..".toList.isSuffixOf? body with
  | some name => (name, true)
  | none => (body, false)

def isNameChar (c : Char) : Bool := c.isAlphanum || c == '_'

def named (parts : List PatternPart) (name : Str) : Bool :=
  parts.any fun
    | .capture other _ => other == name
    | .text _ => false

def checkName (topic name : Str) (parts : List PatternPart) (captures : Nat) :
    Except String Unit :=
  if name.isEmpty then .error s!"empty capture name in '{String.ofList topic}'"
  else if !name.all isNameChar then
    .error (s!"capture name '{String.ofList name}' in '{String.ofList topic}' " ++
      "may only contain A-Z, a-z, 0-9 and _")
  else if named parts name then
    .error s!"capture '{String.ofList name}' appears twice in '{String.ofList topic}'"
  else if captures = maxCaptures then
    .error s!"'{String.ofList topic}' has more than {maxCaptures} captures"
  else .ok ()

def textPart (text : Str) : List PatternPart :=
  if text.isEmpty then [] else [.text text]

/-- The loop of `parse` over the rest of the topic. -/
def parseFrom (topic rest : Str) (parts : List PatternPart) (captures : Nat) :
    Except String (List PatternPart) :=
  match _opened : findBrace rest with
  | (_, []) => .ok (parts ++ textPart rest)
  | (text, brace :: after) =>
      if brace == '}' then .error s!"unbalanced '\x7d' in '{String.ofList topic}'"
      else
        match _closed : findBrace after with
        | (body, '}' :: next) => do
            let (name, multi) := stripDots body
            checkName topic name parts captures
            parseFrom topic next (parts ++ textPart text ++ [.capture name multi]) (captures + 1)
        | _ => .error s!"unbalanced '\x7b' in '{String.ofList topic}'"
termination_by rest.length
decreasing_by
  have outer := findBrace_length rest
  have inner := findBrace_length after
  simp only [_opened, _closed, List.length_cons] at outer inner
  omega

/-- Rejects unbalanced braces, names outside `[A-Za-z0-9_]+`, duplicates and
too many captures. -/
def parse (topic : Str) : Except String TopicPattern :=
  (parseFrom topic topic [] 0).map (TopicPattern.mk topic)

def captureNames (pattern : TopicPattern) : List Str :=
  pattern.parts.filterMap fun
    | .capture name _ => some name
    | .text _ => none

end TopicPattern

/-- One compiled pattern: what to subscribe, whether it matches only that, and
the matcher, which also writes the captures. -/
structure TopicFilter where
  filter : Str
  isLiteral : Bool
  isMatch : Str → Spans → Bool × Spans

/-- A connector's wildcard rules. -/
structure TopicGrammar where
  compile : TopicPattern → Except String TopicFilter
  covers : Str → Str → Bool

/-- A segment as written: its text and, for `{…}`, the capture number and
whether it is `{name..}`. -/
structure RawSegment where
  text : Str := []
  capture : Option (Nat × Bool) := none
  deriving DecidableEq, Repr

/-- The segments so far, of which there is always a last one. -/
structure RawSegments where
  done : List RawSegment := []
  last : RawSegment := {}
  captures : Nat := 0
  deriving DecidableEq, Repr

namespace RawSegments

def all (raw : RawSegments) : List RawSegment := raw.done ++ [raw.last]

/-- A new segment, holding `segment` so far. -/
def pushSegment (raw : RawSegments) (segment : Str) : RawSegments :=
  { raw with done := raw.done ++ [raw.last], last := { text := segment } }

/-- A text part: its first piece goes on the last segment, every other one
starts a segment. -/
def pushText (raw : RawSegments) (text : Str) : RawSegments :=
  match text.splitOn '/' with
  | [] => raw
  | segment :: more =>
      more.foldl pushSegment { raw with last.text := raw.last.text ++ segment }

/-- One part; `whole` is the error of a second capture in one segment. -/
def pushPart (whole : String) (raw : RawSegments) : PatternPart → Except String RawSegments
  | .text text => .ok (raw.pushText text)
  | .capture _ multi =>
      if raw.last.capture.isSome then .error whole
      else .ok { raw with
        last.capture := some (raw.captures, multi), captures := raw.captures + 1 }

def ofParts (whole : String) (parts : List PatternPart) : Except String (List RawSegment) :=
  (parts.foldlM (pushPart whole) {}).map all

/-- Every character of the segments satisfies `good`. -/
def Made (good : Char → Prop) (raw : RawSegments) : Prop :=
  ∀ segment ∈ raw.all, ∀ c ∈ segment.text, good c

variable {good : Char → Prop}

theorem Made.pushSegment {raw : RawSegments} (made : raw.Made good) {segment : Str}
    (chars : ∀ c ∈ segment, good c) : (raw.pushSegment segment).Made good := by
  intro other inAll
  simp only [RawSegments.pushSegment, all, List.mem_append, List.mem_singleton] at inAll
  rcases inAll with (earlier | rfl) | rfl
  · exact made other (by simp [all, earlier])
  · exact made raw.last (by simp [all])
  · exact chars

theorem Made.pushSegments {raw : RawSegments} (made : raw.Made good) {segments : List Str}
    (chars : ∀ segment ∈ segments, ∀ c ∈ segment, good c) :
    RawSegments.Made good (segments.foldl RawSegments.pushSegment raw) := by
  induction segments generalizing raw with
  | nil => exact made
  | cons segment segments inductionHypothesis =>
      apply inductionHypothesis
      · exact made.pushSegment (chars segment (by simp))
      · exact fun other later => chars other (by simp [later])

theorem Made.pushText {raw : RawSegments} (made : raw.Made good) {text : Str}
    (pieces : ∀ segment ∈ text.splitOn '/', ∀ c ∈ segment, good c) :
    (raw.pushText text).Made good := by
  rw [RawSegments.pushText]
  cases split : text.splitOn '/' with
  | nil => exact made
  | cons segment more =>
      rw [split] at pieces
      apply Made.pushSegments
      · intro other inAll
        simp only [all, List.mem_append, List.mem_singleton] at inAll
        rcases inAll with earlier | rfl
        · exact made other (by simp [all, earlier])
        · intro c inside
          rcases List.mem_append.mp inside with old | new
          · exact made raw.last (by simp [all]) c old
          · exact pieces segment (by simp) c new
      · exact fun piece inMore => pieces piece (by simp [inMore])

theorem Made.pushPart {whole : String} {raw next : RawSegments} (made : raw.Made good)
    {part : PatternPart}
    (chars : ∀ text, part = .text text →
      ∀ piece ∈ text.splitOn '/', ∀ c ∈ piece, good c)
    (pushed : raw.pushPart whole part = .ok next) : next.Made good := by
  cases part with
  | text text =>
      obtain rfl : raw.pushText text = next := by simpa [RawSegments.pushPart] using pushed
      exact made.pushText (chars text rfl)
  | capture name multi =>
      rw [RawSegments.pushPart] at pushed
      split at pushed
      · simp at pushed
      · obtain rfl := Except.ok.inj pushed
        intro other inAll
        simp only [all, List.mem_append, List.mem_singleton] at inAll
        rcases inAll with earlier | rfl
        · exact made other (by simp [all, earlier])
        · exact made raw.last (by simp [all])

theorem foldlM_made {whole : String} {parts : List PatternPart} {start stop : RawSegments}
    (made : start.Made good)
    (chars : ∀ text, .text text ∈ parts →
      ∀ piece ∈ text.splitOn '/', ∀ c ∈ piece, good c)
    (folded : parts.foldlM (pushPart whole) start = .ok stop) : stop.Made good := by
  induction parts generalizing start with
  | nil =>
      obtain rfl : start = stop := by simpa [pure, Except.pure] using folded
      exact made
  | cons part parts inductionHypothesis =>
      rw [List.foldlM_cons] at folded
      obtain ⟨next, pushed, rest⟩ := bind_eq_ok folded
      have first : next.Made good :=
        made.pushPart (fun text same => chars text (by simp [same])) pushed
      exact inductionHypothesis first (fun text later => chars text (by simp [later])) rest

theorem ofParts_made (good : Char → Prop) {whole : String} {parts : List PatternPart}
    {raw : List RawSegment}
    (chars : ∀ text, .text text ∈ parts →
      ∀ piece ∈ text.splitOn '/', ∀ c ∈ piece, good c)
    (built : ofParts whole parts = .ok raw) :
    ∀ segment ∈ raw, ∀ c ∈ segment.text, good c := by
  obtain ⟨stop, folded, rfl⟩ := map_eq_ok built
  exact foldlM_made (by simp [Made, all]) chars folded

theorem ofParts_cut {whole : String} {parts : List PatternPart} {raw : List RawSegment}
    (built : ofParts whole parts = .ok raw) : ∀ segment ∈ raw, '/' ∉ segment.text := by
  intro segment isRaw inside
  have chars := ofParts_made (· ≠ '/')
    (fun _ _ _ isPiece _ inPiece => (Wildcard.mem_of_mem_piece isPiece inPiece).2) built
  exact chars segment isRaw '/' inside rfl

theorem ofParts_ne_nil {whole : String} {parts : List PatternPart} {raw : List RawSegment}
    (built : ofParts whole parts = .ok raw) : raw ≠ [] := by
  obtain ⟨stop, -, rfl⟩ := map_eq_ok built
  simp [all]

end RawSegments

end AimDb.Topic
