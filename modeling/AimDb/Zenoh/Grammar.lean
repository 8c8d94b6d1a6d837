import AimDb.Topic.Pattern
import AimDb.Wildcard.Glob

/-!
# Zenoh key expressions

`/` separates chunks, `*` matches one chunk, `**` any number of chunks, and `$*`
inside a chunk any run of characters.  A chunk starting with `@` is verbatim:
only the same chunk matches it, never a wildcard.
-/

namespace AimDb.Zenoh

open Topic Wildcard

inductive Chunk where
  /-- A plain or verbatim (`@…`) chunk. -/
  | literal (text : Str)
  /-- `*` or `{name}`, with the capture number. -/
  | single (capture : Option Nat)
  /-- `**` or `{name..}`, with the capture number. -/
  | multi (capture : Option Nat)
  /-- The text around each `$*`, in order. -/
  | glob (pieces : List Str)
  deriving DecidableEq, Repr

structure ZenohFilter where
  filter : Str
  chunks : List Chunk
  deriving DecidableEq, Repr

/-- What stands for any text inside a chunk. -/
def mark : Str := ['$', '*']

/-- `str::split("$*")`. -/
def splitMark : Str → List Str
  | '$' :: '*' :: rest => [] :: splitMark rest
  | c :: rest => (splitMark rest).modifyHead (c :: ·)
  | [] => [[]]

namespace Chunk

def isMulti : Chunk → Bool
  | multi _ => true
  | _ => false

def isLiteral : Chunk → Bool
  | literal _ => true
  | _ => false

/-- The capture of a `**`, named or not. -/
def multiCapture : Chunk → Option (Option Nat)
  | multi capture => some capture
  | _ => none

/-- Drops the empty pieces that are neither first nor last. -/
def retainPieces (pieces : List Str) : List Str :=
  (pieces.zipIdx.filter fun (p, i) =>
    i == 0 || i == pieces.length - 1 || !p.isEmpty).map Prod.fst

def classify (text : Str) : Except String Chunk :=
  if text = [] then .error "a key expression has no empty chunks"
  else if text = ['*'] then .ok (single none)
  else if text = ['*', '*'] then .ok (multi none)
  else if text.any fun c => c == '#' || c == '?' then
    .error "'#' and '?' are not allowed in a key expression"
  else if !text.any fun c => c == '*' || c == '$' then .ok (literal text)
  else if startsWith '@' text then .error "a verbatim '@' chunk cannot hold a wildcard"
  else
    let pieces := splitMark text
    if pieces.any fun p => p.contains '$' then .error "'$' must be followed by '*'"
    else if pieces.any fun p => p.contains '*' then
      .error "'*' and '**' must be whole chunks; inside a chunk use '$*'"
    else
      -- `$*$*` is `$*`
      let pieces := retainPieces pieces
      if pieces.all List.isEmpty then .ok (single none) else .ok (glob pieces)

end Chunk

/-- What a run of `*` and `**` chunks comes to. -/
def flush (singles : Nat) (multi : Bool) : List Str :=
  List.replicate singles ['*'] ++ if multi then [['*', '*']] else []

/-- The loop of `canonical`, inside a run of wildcards. -/
def canonicalFrom : List Chunk → Nat → Bool → List Str
  | [], singles, multi => flush singles multi
  | .single _ :: chunks, singles, multi => canonicalFrom chunks (singles + 1) multi
  | .multi _ :: chunks, singles, _ => canonicalFrom chunks singles true
  | .literal text :: chunks, singles, multi =>
      flush singles multi ++ text :: canonicalFrom chunks 0 false
  | .glob pieces :: chunks, singles, multi =>
      flush singles multi ++ join mark pieces :: canonicalFrom chunks 0 false

/-- Within each run of `*` and `**` chunks, the `*`s come first and one `**`
ends it. -/
def canonical (chunks : List Chunk) : Str :=
  join ['/'] (canonicalFrom chunks 0 false)

def parse (filter : Str) : Option (List Chunk) :=
  (filter.splitOn '/').mapM fun c => (Chunk.classify c).toOption

def isVerbatim : Chunk → Bool
  | .literal text => startsWith '@' text
  | _ => false

/-- Whether `text` fits `pieces` joined by `$*`. -/
def globMatches (pieces : List Str) (text : Str) : Bool :=
  match pieces with
  | [] => false
  | first :: rest =>
      match first.isPrefixOf? text with
      | none => false
      | some body =>
          match (pieces.getLastD first).isSuffixOf? body with
          | none => false
          | some body => Glob.scan rest.dropLast body

/-- Whether chunk `a` matches every chunk `b` matches; neither is `**`. -/
def chunkIncludes (a b : Chunk) : Bool :=
  if isVerbatim b then a == b
  else
    match a, b with
    | .literal x, .literal y => x == y
    | .single _, _ => true
    | .glob pieces, .literal text => globMatches pieces text
    | .glob x, .glob y => globMatches x (join mark y)
    | _, _ => false

/-- Whether `a` matches every key `b` matches. -/
def includes : List Chunk → List Chunk → Bool
  | [], [] => true
  | .multi capture :: a, b =>
      includes a b ||
        match b with
        | first :: rest => !isVerbatim first && includes (.multi capture :: a) rest
        | [] => false
  | [], _ :: _ => false
  | _ :: _, [] => false
  | _ :: _, .multi _ :: _ => false
  | x :: a, y :: b => chunkIncludes x y && includes a b
termination_by a b => a.length + b.length

/-- `ZenohGrammar::covers`. -/
def covers (a b : Str) : Bool :=
  match parse a, parse b with
  | some a, some b => includes a b
  | _, _ => false

/-- `&s[start..]`, from a byte position. -/
def dropBytes : Str → Nat → Str
  | s, 0 => s
  | [], _ => []
  | c :: s, n => dropBytes s (n - c.utf8Size)

/-- The chunk starting at byte `start`, and where the next one starts. -/
def chunkAt (topic : Str) (start : Nat) : Str × Option Nat :=
  let rest := dropBytes topic start
  let text := rest.takeWhile (· != '/')
  if rest.contains '/' then (text, some (start + byteLen text + 1)) else (rest, none)

theorem byteLen_dropBytes_le (s : Str) (n : Nat) : byteLen (dropBytes s n) ≤ byteLen s - n := by
  induction s generalizing n with
  | nil => cases n <;> simp [dropBytes]
  | cons c s inductionHypothesis =>
      cases n with
      | zero => simp [dropBytes]
      | succ n =>
          rw [dropBytes, byteLen_cons]
          · have shorter := inductionHypothesis (n + 1 - c.utf8Size)
            omega
          · simp

theorem byteLen_takeWhile_lt {rest : Str} (slash : rest.contains '/' = true) :
    byteLen (rest.takeWhile (· != '/')) < byteLen rest := by
  induction rest with
  | nil => simp at slash
  | cons c rest inductionHypothesis =>
      by_cases here : c = '/'
      · subst here
        have wide := Char.utf8Size_pos '/'
        simp
        omega
      · have later : rest.contains '/' = true := by simpa [Ne.symm here] using slash
        simpa [here] using inductionHypothesis later

/-- What is left of the topic at a position, as far as the loop counts. -/
def remaining (topic : Str) : Option Nat → Nat
  | none => 0
  | some p => byteLen topic - p + 1

theorem remaining_chunkAt (topic : Str) (p : Nat) :
    remaining topic (chunkAt topic p).2 < remaining topic (some p) := by
  by_cases slash : (dropBytes topic p).contains '/' = true
  · have shorter := byteLen_takeWhile_lt slash
    have inside := byteLen_dropBytes_le topic p
    simp only [chunkAt, slash, if_true, remaining]
    omega
  · simp only [chunkAt, slash, remaining]
    simp

namespace ZenohFilter

def isLiteral (f : ZenohFilter) : Bool := f.chunks.all Chunk.isLiteral

/-- Whether one chunk of a segment fits `text`, and the spans it leaves. -/
def chunkFits (text : Str) (here : Nat) (spans : Spans) : Chunk → Bool × Spans
  | .literal literal => (literal == text, spans)
  | .single capture =>
      (!startsWith '@' text, spans.capture capture here (here + byteLen text))
  | .glob pieces => (!startsWith '@' text && globMatches pieces text, spans)
  | .multi _ => (false, spans)

/-- Matches `segment`, which holds no `**`, chunk by chunk from a byte on (`none`:
the topic is used up). Says where the topic continues. -/
def segmentAt (topic : Str) : List Chunk → Option Nat → Spans → Option (Option Nat) × Spans
  | [], position, spans => (some position, spans)
  | _ :: _, none, spans => (none, spans)
  | chunk :: segment, some here, spans =>
      let next := chunkAt topic here
      let fit := chunkFits next.1 here spans chunk
      if fit.1 then segmentAt topic segment next.2 fit.2 else (none, fit.2)

/-- The inner loop of `matches`: one `**` takes chunks until the segment behind it
fits. -/
def gapFrom (topic : Str) (segment : List Chunk) (last : Bool) (capture : Option Nat)
    (gapStart gapEnd : Nat) (here : Option Nat) (spans : Spans) :
    Option (Option Nat) × Spans :=
  let attempt := segmentAt topic segment here (spans.capture capture gapStart gapEnd)
  -- the last segment must also use up the topic
  match attempt.1.filter fun after => !last || after.isNone with
  | some after => (some after, attempt.2)
  | none =>
      match here with
      | none => (none, attempt.2)
      | some p =>
          if startsWith '@' (chunkAt topic p).1 then (none, attempt.2)
          else
            gapFrom topic segment last capture gapStart (p + byteLen (chunkAt topic p).1)
              (chunkAt topic p).2 attempt.2
termination_by remaining topic here
decreasing_by exact remaining_chunkAt topic p

/-- The outer loop of `matches`, over the segments behind a `**`. -/
def matchSegments (topic : Str) :
    List (List Chunk) → List (Option Nat) → Option Nat → Spans → Bool × Spans
  | [], _, position, spans => (position.isNone, spans)
  | segment :: segments, multis, position, spans =>
      let gapStart := position.getD (byteLen topic)
      match gapFrom topic segment segments.isEmpty multis.head?.join gapStart gapStart
          position spans with
      | (none, spans) => (false, spans)
      | (some after, spans) => matchSegments topic segments multis.tail after spans

/-- `ZenohFilter::matches`. -/
def isMatch (f : ZenohFilter) (topic : Str) (spans : Spans) : Bool × Spans :=
  if topic.contains '*' then (false, spans)
  else
    let segments := f.chunks.splitOnP Chunk.isMulti
    let multis := f.chunks.filterMap Chunk.multiCapture
    let start := if topic.isEmpty then none else some 0
    match segmentAt topic (segments.headD []) start spans with
    | (none, spans) => (false, spans)
    | (some position, spans) => matchSegments topic segments.tail multis position spans

def asTopicFilter (f : ZenohFilter) : TopicFilter where
  filter := f.filter
  isLiteral := f.isLiteral
  isMatch := f.isMatch

end ZenohFilter

def wholeChunk (topic : Str) : String :=
  s!"'{String.ofList topic}': a capture must be a whole chunk, not part of one"

def compileChunk (topic : Str) (raw : RawSegment) : Except String Chunk :=
  match raw.capture with
  | some (n, isMulti) =>
      if !raw.text.isEmpty then .error (wholeChunk topic)
      else .ok (if isMulti then .multi (some n) else .single (some n))
  | none => (Chunk.classify raw.text).mapError fun why => s!"'{String.ofList topic}': {why}"

/-- `ZenohGrammar::compile`. -/
def compileFilter (pattern : TopicPattern) : Except String ZenohFilter := do
  let topic := pattern.topic
  let raw ← RawSegments.ofParts (wholeChunk topic) pattern.parts
  let chunks ← raw.mapM (compileChunk topic)
  .ok ⟨canonical chunks, chunks⟩

def zenohGrammar : TopicGrammar where
  compile pattern := (compileFilter pattern).map ZenohFilter.asTopicFilter
  covers := covers

end AimDb.Zenoh
