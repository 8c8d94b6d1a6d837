import AimDb.Error
import AimDb.Json.Text

/-!
# One outbound route

A route reads its buffer, writes the topic of a value into one slice of the scratch and
serializes the value into another.
-/

namespace AimDb.Outbound.Routes

open Json (Bytes utf8 fromUtf8?)

/-- A topic in the making; a write that does not fit is refused whole. -/
structure TopicBuf where
  buf : Bytes
  len : ℕ
  overflowed : Bool

def TopicBuf.new (buf : Bytes) : TopicBuf := ⟨buf, 0, false⟩

def TopicBuf.pushStr (out : TopicBuf) (text : String) : TopicBuf × Bool :=
  let stop := out.len + (utf8 text).length
  if stop ≤ out.buf.length ∧ out.overflowed = false then
    ({ out with
       buf := out.buf.take out.len ++ utf8 text ++ out.buf.drop stop
       len := stop }, true)
  else ({ out with overflowed := true }, false)

/-- What a topic writer does, which acts only through the buffer it is given: it sees of each
text whether it was accepted. -/
inductive Writing
  | push (text : String) (next : Bool → Writing)
  /-- Whether to publish to what was written; none for an overflow. -/
  | done (result : Option Bool)

def Writing.run : Writing → TopicBuf → TopicBuf × Option Bool
  | .push text next, out => (next (out.pushStr text).2).run (out.pushStr text).1
  | .done result, out => (out, result)

variable {V Ctx : Type}

abbrev TopicWriter (V : Type) := V → ℕ → Writing

def writeTopic (writer : TopicWriter V) (value : V) (out : TopicBuf) : TopicBuf × Option Bool :=
  let (out, result) := (writer value out.buf.length).run out
  (out, if out.overflowed then none else result)

inductive SerializeError
  | bufferTooSmall
  | invalidData
  deriving DecidableEq, Repr

inductive SerializeFailure
  | owned (error : SerializeError)
  | into (error : SerializeError)
  /-- The value did not fit the scratch, and the owned serializer failed. -/
  | fallback (error : SerializeError)
  | invalidLength (len capacity : ℕ)
  deriving DecidableEq, Repr

/-- Serializes into a slice, which keeps its length, and reports how much of it it used. -/
structure SerializeInto (V Ctx : Type) where
  run : Ctx → V → Bytes → Bytes × Except SerializeError ℕ
  length_run : ∀ ctx value out, (run ctx value out).1.length = out.length

inductive StagedPayload
  | scratch (len : ℕ)
  | owned (bytes : Bytes)
  deriving DecidableEq, Repr

structure TypedRoute (V Ctx : Type) where
  writer : Option (TopicWriter V)
  serialize : Ctx → V → Except SerializeError Bytes
  serializeInto : Option (SerializeInto V Ctx)

variable (route : TypedRoute V Ctx)

/-- What the result of the fast path selects. -/
def stageInto (ctx : Ctx) (value : V) (capacity : ℕ) :
    Except SerializeError ℕ → Except SerializeFailure StagedPayload
  | .ok len =>
      if len ≤ capacity then .ok (.scratch len) else .error (.invalidLength len capacity)
  | .error .bufferTooSmall => ((route.serialize ctx value).map .owned).mapError .fallback
  | .error .invalidData => .error (.into .invalidData)

def serializeOutbound (ctx : Ctx) (value : V) (scratch : Bytes) :
    Bytes × Except SerializeFailure StagedPayload :=
  match route.serializeInto with
  | none => (scratch, ((route.serialize ctx value).map .owned).mapError .owned)
  | some serializeInto =>
      let (scratch, result) := serializeInto.run ctx value scratch
      (scratch, stageInto route ctx value scratch.length result)

structure WriteMetadata where
  stamp : UInt64
  deriving DecidableEq, Repr

structure Sample (V : Type) where
  value : V
  metadata : WriteMetadata
  deriving DecidableEq, Repr

inductive RouteOutcome
  | staged (topicLen : Option ℕ) (payload : StagedPayload) (metadata : WriteMetadata)
  | lagged (count : UInt64)
  | topicOverflow
  | serializeFailed (failure : SerializeFailure)
  | closed (error : DbError)
  deriving DecidableEq, Repr

abbrev Reading (V : Type) := Option (Except DbError (Sample V))

def pollTopic (value : V) (topic : Bytes) : Bytes × Option (Option ℕ) :=
  match route.writer with
  | none => (topic, some none)
  | some writer =>
      let (out, result) := writeTopic writer value (.new topic)
      (out.buf, result.map fun written => if written then some out.len else none)

def pollSample (ctx : Ctx) (sample : Sample V) (topic payload : Bytes) :
    RouteOutcome × Bytes × Bytes :=
  match pollTopic route sample.value topic with
  | (topic, none) => (.topicOverflow, topic, payload)
  | (topic, some topicLen) =>
      match serializeOutbound route ctx sample.value payload with
      | (payload, .ok staged) => (.staged topicLen staged sample.metadata, topic, payload)
      | (payload, .error failure) => (.serializeFailed failure, topic, payload)

def pollRoute (ctx : Ctx) (reading : Reading V) (topic payload : Bytes) :
    Option RouteOutcome × Bytes × Bytes :=
  match reading with
  | none => (none, topic, payload)
  | some (.ok sample) =>
      let (outcome, topic, payload) := pollSample route ctx sample topic payload
      (some outcome, topic, payload)
  | some (.error (.bufferLagged count _)) => (some (.lagged count), topic, payload)
  | some (.error error) => (some (.closed error), topic, payload)

/-- The text of a topic, whether a write was refused, and what the writer returned. -/
def Writing.compose (capacity : ℕ) : Writing → String → Bool → String × Bool × Option Bool
  | .push text next, written, overflowed =>
      if (utf8 written).length + (utf8 text).length ≤ capacity ∧ overflowed = false then
        (next true).compose capacity (written ++ text) overflowed
      else (next false).compose capacity written true
  | .done result, written, overflowed => (written, overflowed, result)

/-- The topic a value is published to: none where it does not fit, and none inside for the
default. -/
def topicOf (capacity : ℕ) (value : V) : Option (Option String) :=
  match route.writer with
  | none => some none
  | some writer =>
      let (text, overflowed, result) := (writer value capacity).compose capacity "" false
      if overflowed then none
      else result.map fun written => if written then some text else none

def topicText (defaultTopic : String) (topic : Bytes) : Option ℕ → String
  | some len => (fromUtf8? (topic.take len)).getD ""
  | none => defaultTopic

def payloadBytes (payload : Bytes) : StagedPayload → Bytes
  | .scratch len => payload.take len
  | .owned bytes => bytes

def payloadOf (ctx : Ctx) (value : V) (before : Bytes) : Except SerializeFailure Bytes :=
  (serializeOutbound route ctx value before).2.map
    (payloadBytes (serializeOutbound route ctx value before).1)

/-- The fast path writes every byte it reports. -/
def Initializes (capacity : ℕ) : Prop :=
  ∀ ctx value (before other : Bytes), before.length = capacity → other.length = capacity →
    payloadOf route ctx value before = payloadOf route ctx value other

structure TopicBuf.Holds (out : TopicBuf) (capacity : ℕ) (text : String) : Prop where
  size : out.buf.length = capacity
  len : out.len = (utf8 text).length
  fits : out.len ≤ capacity
  front : out.buf.take out.len = utf8 text

theorem utf8_append (text more : String) : utf8 (text ++ more) = utf8 text ++ utf8 more := by
  simp [utf8]

variable {route} {capacity : ℕ} {out : TopicBuf} {text : String}

theorem TopicBuf.holds_new (buf : Bytes) : (TopicBuf.new buf).Holds buf.length "" :=
  ⟨rfl, rfl, Nat.zero_le _, rfl⟩

theorem TopicBuf.Holds.pushStr (holds : out.Holds capacity text) (more : String) :
    if (utf8 text).length + (utf8 more).length ≤ capacity ∧ out.overflowed = false then
      (out.pushStr more).2 = true ∧ (out.pushStr more).1.Holds capacity (text ++ more) ∧
        (out.pushStr more).1.overflowed = out.overflowed
    else
      (out.pushStr more).2 = false ∧ (out.pushStr more).1.Holds capacity text ∧
        (out.pushStr more).1.overflowed = true := by
  split
  next fits =>
    have room : out.len + (utf8 more).length ≤ out.buf.length ∧ out.overflowed = false := by
      rw [holds.len, holds.size]
      exact fits
    have pushed : out.pushStr more = (⟨out.buf.take out.len ++ utf8 more ++
        out.buf.drop (out.len + (utf8 more).length), out.len + (utf8 more).length,
        out.overflowed⟩, true) := if_pos room
    rw [pushed]
    refine ⟨rfl, ⟨?_, ?_, ?_, ?_⟩, rfl⟩
    · have size := holds.size
      simp
      omega
    · simp [utf8_append, holds.len]
    · rw [← holds.size]
      exact room.1
    · dsimp only
      rw [holds.front, holds.len, utf8_append, ← List.length_append, List.take_left]
  next full =>
    have noRoom : ¬ (out.len + (utf8 more).length ≤ out.buf.length ∧
        out.overflowed = false) := by
      rw [holds.len, holds.size]
      exact full
    have pushed : out.pushStr more = ({ out with overflowed := true }, false) := if_neg noRoom
    rw [pushed]
    exact ⟨rfl, ⟨holds.size, holds.len, holds.fits, holds.front⟩, rfl⟩

theorem Writing.run_compose (writing : Writing) (holds : out.Holds capacity text) :
    (writing.run out).1.Holds capacity (writing.compose capacity text out.overflowed).1 ∧
      (writing.run out).1.overflowed = (writing.compose capacity text out.overflowed).2.1 ∧
      (writing.run out).2 = (writing.compose capacity text out.overflowed).2.2 := by
  induction writing generalizing out text with
  | done result => exact ⟨holds, rfl, rfl⟩
  | push more next inductionHypothesis =>
      have pushed := holds.pushStr more
      rw [Writing.run, Writing.compose]
      split
      next fits =>
        rw [if_pos fits] at pushed
        obtain ⟨accepted, after, flag⟩ := pushed
        rw [accepted, ← flag]
        exact inductionHypothesis true after
      next full =>
        rw [if_neg full] at pushed
        obtain ⟨refused, after, flag⟩ := pushed
        rw [refused, ← flag]
        exact inductionHypothesis false after

theorem pollTopic_spec (route : TypedRoute V Ctx) (defaultTopic : String) (value : V)
    (topic : Bytes) :
    (pollTopic route value topic).1.length = topic.length ∧
      (∀ len, (pollTopic route value topic).2 = some (some len) → len ≤ topic.length) ∧
      (pollTopic route value topic).2.map
          (topicText defaultTopic (pollTopic route value topic).1) =
        (topicOf route topic.length value).map (·.getD defaultTopic) := by
  unfold pollTopic topicOf
  cases route.writer with
  | none =>
      refine ⟨rfl, ?_, rfl⟩
      intro len absent
      cases absent
  | some writer =>
      obtain ⟨holds, flag, result⟩ :=
        (writer value topic.length).run_compose (TopicBuf.holds_new topic)
      have start : (TopicBuf.new topic).overflowed = false := rfl
      have size : (TopicBuf.new topic).buf.length = topic.length := rfl
      rw [start] at holds flag result
      unfold writeTopic
      dsimp only
      rw [size, flag, result]
      generalize (writer value topic.length).compose topic.length "" false = composed at *
      obtain ⟨text, overflowed, written⟩ := composed
      refine ⟨holds.size, ?_, ?_⟩
      · cases overflowed <;> rcases written with - | (- | -) <;> simp
        exact holds.fits
      · cases overflowed <;> rcases written with - | (- | -) <;> simp [topicText]
        rw [holds.front, Json.fromUtf8?_utf8]
        rfl

theorem stageInto_scratch {ctx : Ctx} {value : V} {result : Except SerializeError ℕ} {len : ℕ}
    (staged : stageInto route ctx value capacity result = .ok (.scratch len)) :
    len ≤ capacity := by
  rcases result with (- | -) | reported
  · rw [stageInto] at staged
    cases bytes : route.serialize ctx value <;> rw [bytes] at staged <;> cases staged
  · cases staged
  · rw [stageInto] at staged
    split at staged
    next fits =>
      cases staged
      exact fits
    · cases staged

theorem serializeOutbound_spec (route : TypedRoute V Ctx) (ctx : Ctx) (value : V)
    (scratch : Bytes) :
    (serializeOutbound route ctx value scratch).1.length = scratch.length ∧
      ∀ len, (serializeOutbound route ctx value scratch).2 = .ok (.scratch len) →
        len ≤ scratch.length := by
  unfold serializeOutbound
  cases route.serializeInto with
  | none =>
      refine ⟨rfl, fun len same => ?_⟩
      dsimp only at same
      cases bytes : route.serialize ctx value <;> rw [bytes] at same <;> cases same
  | some serializeInto =>
      have size := serializeInto.length_run ctx value scratch
      refine ⟨size, fun len same => ?_⟩
      have fits := stageInto_scratch same
      exact size ▸ fits

end AimDb.Outbound.Routes
