import AimDb.Topic.Pattern

/-!
# MQTT topic filters

MQTT 3.1.1 §4.7: `/` separates levels, `+` matches one level, `#` the rest
including the parent level and only as the last level.  A wildcard is a whole
level, and a leading wildcard does not match a `$…` topic.
-/

namespace AimDb.Mqtt

open Topic

inductive Level where
  | literal (text : Str)
  /-- `+` or `{name}`, with the capture number. -/
  | single (capture : Option Nat)
  /-- `#` or `{name..}`, with the capture number. -/
  | multi (capture : Option Nat)
  deriving DecidableEq, Repr

structure MqttFilter where
  filter : Str
  levels : List Level
  deriving DecidableEq, Repr

/-- `str::split_once('/')`: the first level, and what follows its slash. -/
def splitOnce (r : Str) : Str × Option Str :=
  match r.dropWhile (· != '/') with
  | [] => (r, none)
  | _ :: next => (r.takeWhile (· != '/'), some next)

namespace Level

def isMulti : Level → Bool
  | multi _ => true
  | _ => false

def isLiteral : Level → Bool
  | literal _ => true
  | _ => false

def render : Level → Str
  | literal text => text
  | single _ => ['+']
  | multi _ => ['#']

def classify (topic : Str) (raw : RawSegment) : Except String Level :=
  match raw.capture with
  | some (n, isMulti) =>
      if !raw.text.isEmpty then
        .error s!"'{String.ofList topic}': a capture must be a whole level, not part of one"
      else .ok (if isMulti then multi (some n) else single (some n))
  | none =>
      if raw.text = ['+'] then .ok (single none)
      else if raw.text = ['#'] then .ok (multi none)
      else if raw.text.any fun c => c == '+' || c == '#' then
        .error (s!"'{String.ofList topic}': a wildcard must be a whole level, " ++
          s!"not part of '{String.ofList raw.text}'")
      else .ok (literal raw.text)

/-- The loop of `compile` over the raw levels. -/
def compileAll (topic : Str) : List RawSegment → Except String (List Level)
  | [] => .ok []
  | raw :: more => do
      let level ← classify topic raw
      if level.isMulti && !more.isEmpty then
        .error s!"'{String.ofList topic}': a multi-level wildcard must be the last level"
      else
        let levels ← compileAll topic more
        .ok (level :: levels)

end Level

namespace MqttFilter

def isLiteral (f : MqttFilter) : Bool := f.levels.all Level.isLiteral

/-- The loop of `matches` from level `i` on: `rest` is what the levels so far
left of the topic, and `pos` the byte where it starts. -/
def matchFrom (topic : Str) : Nat → List Level → Option Str → Nat → Spans → Bool × Spans
  | _, [], rest, _, spans => (rest.isNone, spans)
  | i, .multi capture :: _, rest, pos, spans =>
      if i == 0 && startsWith '$' topic then (false, spans)
      else
        let start := if rest.isSome then pos else byteLen topic
        (true, spans.capture capture start (byteLen topic))
  | _, .literal _ :: _, none, _, spans => (false, spans)
  | _, .single _ :: _, none, _, spans => (false, spans)
  | i, .literal lit :: levels, some r, pos, spans =>
      let (text, next) := splitOnce r
      if lit != text then (false, spans)
      else matchFrom topic (i + 1) levels next (pos + byteLen text + 1) spans
  | i, .single capture :: levels, some r, pos, spans =>
      let (text, next) := splitOnce r
      if i == 0 && startsWith '$' text then (false, spans)
      else
        matchFrom topic (i + 1) levels next (pos + byteLen text + 1)
          (spans.capture capture pos (pos + byteLen text))

def isMatch (f : MqttFilter) (topic : Str) (spans : Spans) : Bool × Spans :=
  matchFrom topic 0 f.levels (some topic) 0 spans

def asTopicFilter (f : MqttFilter) : TopicFilter where
  filter := f.filter
  isLiteral := f.isLiteral
  isMatch := f.isMatch

end MqttFilter

/-- `MqttGrammar::compile`. -/
def compileFilter (pattern : TopicPattern) : Except String MqttFilter := do
  let topic := pattern.topic
  let raw ← RawSegments.ofParts
    s!"'{String.ofList topic}': a capture must be a whole level, not part of one" pattern.parts
  let levels ← Level.compileAll topic raw
  .ok ⟨join ['/'] (levels.map Level.render), levels⟩

/-- The loop of `covers` from level `i` on. -/
def coversFrom : Nat → List Str → List Str → Bool
  | _, [], [] => true
  | _, [], _ :: _ => false
  | i, x :: a, b =>
      -- the rest of `b`, possibly nothing; at level 0 not a `$…` topic
      if x = ['#'] then decide (i > 0) || !b.head?.any (startsWith '$')
      else
        match b with
        | [] => false
        | y :: b =>
            if x = ['+'] ∧ y ≠ ['#'] then
              if i == 0 && startsWith '$' y then false else coversFrom (i + 1) a b
            else if x = y ∧ x ≠ ['+'] then coversFrom (i + 1) a b
            else false

/-- `MqttGrammar::covers`. -/
def covers (a b : Str) : Bool :=
  coversFrom 0 (a.splitOn '/') (b.splitOn '/')

def mqttGrammar : TopicGrammar where
  compile pattern := (compileFilter pattern).map MqttFilter.asTopicFilter
  covers := covers

end AimDb.Mqtt
