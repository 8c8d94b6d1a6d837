import AimDb.Graph
import AimDb.Json.Text

/-!
# Typed records

A record holds the closures registered for it until `build` collects them. What a
closure does when it runs is no concern of the record, so closures are any type.
A buffer is the list of the values pushed into it.
-/

namespace AimDb

structure Types where
  Ty : Type
  decEq : DecidableEq Ty
  Value : Ty → Type
  typeName : Ty → String

instance (types : Types) : DecidableEq types.Ty := types.decEq

structure ConfigError where
  recordKey : String
  url : Option String
  message : String
  deriving DecidableEq, Repr

/-- The message with the record and the URL it is about. -/
def ConfigError.display (e : ConfigError) : String :=
  if e.recordKey ≠ "" then
    match e.url with
    | some url => s!"record '{e.recordKey}' ({url}): {e.message}"
    | none => s!"record '{e.recordKey}': {e.message}"
  else
    match e.url with
    | some url => s!"({url}): {e.message}"
    | none => e.message

inductive BufferCfg where
  | spmcRing (capacity : ℕ)
  | singleLatest
  | mailbox
  deriving DecidableEq, Repr

def BufferCfg.name : BufferCfg → String
  | .spmcRing _ => "spmc_ring"
  | .singleLatest => "single_latest"
  | .mailbox => "mailbox"

def BufferCfg.capacity : BufferCfg → Option ℕ
  | .spmcRing capacity => some capacity
  | .singleLatest => none
  | .mailbox => none

structure Link where
  scheme : String
  url : String
  deriving DecidableEq, Repr

structure JsonCodec (T : Type) where
  decode : Json.Value → Option T
  decodeSlice : List UInt8 → Option T

structure TransformDescriptor (types : Types) (Closure : Type) where
  inputKeys : List String
  inputTypes : List types.Ty
  taskFuture : Closure
  faninFutures : List Closure

structure TypedRecord (types : Types) (Closure : Type) (t : types.Ty) where
  producer : Option Closure := none
  consumers : List Closure := []
  transform : Option (TransformDescriptor types Closure) := none
  buffer : Option (List (types.Value t)) := none
  hasClock : Bool := false
  bufferCfg : Option BufferCfg := none
  outboundConnectors : List Link := []
  inboundConnectors : List Link := []
  schema : Option SchemaInfo := none
  writable : Bool := false
  remoteCodec : Option (JsonCodec (types.Value t)) := none
  configErrors : List ConfigError := []

namespace TypedRecord

variable {types : Types} {Closure : Type} {t : types.Ty} (r : TypedRecord types Closure t)

def pushConfigError (err : ConfigError) : TypedRecord types Closure t :=
  { r with configErrors := r.configErrors ++ [err] }

def setSchema (name : String) (version : UInt32) : TypedRecord types Closure t :=
  match r.schema with
  | none => { r with schema := some ⟨name, version⟩ }
  | some s =>
      if s.name = name ∧ s.version = version then r
      else r.pushConfigError ⟨"", none,
        s!"schema {name} v{version} set, but the record already carries {s.name} v{s.version}"⟩

def setProducer (service : Closure) : TypedRecord types Closure t :=
  match r.producer with
  | some _ =>
      r.pushConfigError ⟨"", none, "This record type already has a producer service"⟩
  | none => { r with producer := some service }

def addConsumer (consumer : Closure) : TypedRecord types Closure t :=
  { r with consumers := r.consumers ++ [consumer] }

def setTransform (descriptor : TransformDescriptor types Closure) : TypedRecord types Closure t :=
  match r.transform with
  | some _ =>
      r.pushConfigError ⟨"", none, "Record already has a .transform(); only one is allowed."⟩
  | none => { r with transform := some descriptor }

def setBuffer (buffer : List (types.Value t)) : TypedRecord types Closure t :=
  { r with bufferCfg := none, buffer := some buffer }

def setBufferCfg (cfg : BufferCfg) : TypedRecord types Closure t :=
  { r with bufferCfg := some cfg }

def addOutboundConnector (link : Link) : TypedRecord types Closure t :=
  { r with outboundConnectors := r.outboundConnectors ++ [link] }

def addInboundConnector (link : Link) : TypedRecord types Closure t :=
  { r with inboundConnectors := r.inboundConnectors ++ [link] }

def withRemoteAccess (codec : JsonCodec (types.Value t)) : TypedRecord types Closure t :=
  { r with remoteCodec := some codec }

def hasProducer : Bool := r.producer.isSome

def hasTransform : Bool := r.transform.isSome

def hasBuffer : Bool := r.buffer.isSome

/-- What the setters recorded, and remote access without a buffer to read or write. -/
def drainConfigErrors : List ConfigError :=
  r.configErrors ++
    if r.remoteCodec.isSome && !r.hasBuffer then
      [⟨"", none, "record has .with_remote_access() but no buffer; " ++
        "add a buffer (e.g. .buffer(BufferCfg::SingleLatest)) so record.get/set work"⟩]
    else []

def consumerCount : ℕ := r.consumers.length

/-- How the record gets its values, read from the slots as they are. -/
def recordOrigin : RecordOrigin :=
  match r.transform with
  | some descriptor =>
      match descriptor.inputKeys with
      | [input] => .transform input
      | inputs => .transformJoin inputs
  | none =>
      match r.inboundConnectors with
      | link :: _ => .link link.scheme link.url
      | [] => if r.producer.isSome then .source else .passive

def transformInputTypes : List (String × types.Ty) :=
  match r.transform with
  | some descriptor => descriptor.inputKeys.zip descriptor.inputTypes
  | none => []

def bufferInfo : String × Option ℕ :=
  match r.bufferCfg with
  | some cfg => (cfg.name, cfg.capacity)
  | none => if r.buffer.isSome then ("unknown", none) else ("none", none)

/-- The write handle of a record is its buffer and the clock `build` bound. -/
def writerHandle : Except DbError Unit :=
  if r.hasClock then .ok ()
  else .error (.invalidOperation "write"
    "the record has no instance clock; only records of a built database accept writes")

def collectProducerFuture : TypedRecord types Closure t × Except DbError (Option Closure) :=
  let after := { r with producer := none }
  match r.producer with
  | some service => (after, after.writerHandle.map fun _ => some service)
  | none => (after, .ok none)

/-- The transform leaves its slot: its task and the forwarders of its inputs. -/
def collectTransformFutures : TypedRecord types Closure t × Except DbError (List Closure) :=
  let after := { r with transform := none }
  match r.transform with
  | some descriptor =>
      (after, after.writerHandle.map fun _ => descriptor.taskFuture :: descriptor.faninFutures)
  | none => (after, .ok [])

def collectConsumerFutures (recordKey : String) :
    TypedRecord types Closure t × Except DbError (List Closure) :=
  let after := { r with consumers := [] }
  match r.buffer with
  | some _ => (after, .ok r.consumers)
  | none =>
      (after, .error (.missingConfiguration
        s!"buffer for record '{recordKey}' (required by .tap())"))

def collectAllFutures (recordKey : String) :
    TypedRecord types Closure t × Except DbError (List Closure) :=
  let (r, producer) :=
    if r.hasProducer then r.collectProducerFuture else (r, .ok none)
  match producer with
  | .error e => (r, .error e)
  | .ok producer =>
      let (r, transform) :=
        if r.hasTransform then r.collectTransformFutures else (r, .ok [])
      match transform with
      | .error e => (r, .error e)
      | .ok transform =>
          let (r, consumers) :=
            if 0 < r.consumerCount then r.collectConsumerFutures recordKey else (r, .ok [])
          (r, consumers.map fun consumers => producer.toList ++ transform ++ consumers)

/-- A push through the write handle; without a buffer nothing is kept. -/
def push (value : types.Value t) : TypedRecord types Closure t :=
  { r with buffer := r.buffer.map (· ++ [value]) }

def remoteWriteCodec : Except DbError (JsonCodec (types.Value t)) :=
  if r.hasProducer || r.hasTransform then
    .error (.permissionDenied
      (s!"Cannot set record '{types.typeName t}' - has active producer or " ++
      "transform. Use internal application logic instead. Remote access can only set " ++
      "configuration records without producers."))
  else
    match r.remoteCodec with
    | none => .error (.runtimeError (s!"Record '{types.typeName t}' not configured with " ++
        ".with_remote_access(). Cannot deserialize from JSON."))
    | some codec =>
        match r.buffer with
        | none =>
            .error (.runtimeError (s!"Record '{types.typeName t}' has no buffer configured. " ++
            "Cannot produce value without buffer."))
        | some _ => .ok codec

def commitRemoteWrite (value : types.Value t) :
    TypedRecord types Closure t × Except DbError Unit :=
  match r.writerHandle with
  | .error e => (r, .error e)
  | .ok () => (r.push value, .ok ())

/-- A remote write of what `decode` reads. -/
def setFrom (decode : JsonCodec (types.Value t) → Option (types.Value t)) :
    TypedRecord types Closure t × Except DbError Unit :=
  match r.remoteWriteCodec with
  | .error e => (r, .error e)
  | .ok codec =>
      match decode codec with
      | none => (r, .error (.runtimeError (s!"Failed to deserialize JSON to type " ++
          s!"'{types.typeName t}'. JSON structure does not match the expected schema.")))
      | some value => r.commitRemoteWrite value

def setFromJson (jsonValue : Json.Value) : TypedRecord types Closure t × Except DbError Unit :=
  r.setFrom fun codec => codec.decode jsonValue

def setFromJsonBytes (bytes : List UInt8) : TypedRecord types Closure t × Except DbError Unit :=
  r.setFrom fun codec => codec.decodeSlice bytes

end TypedRecord

abbrev AnyRecord (types : Types) (Closure : Type) : Type :=
  (t : types.Ty) × TypedRecord types Closure t

end AimDb
