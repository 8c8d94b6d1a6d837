import AimDb.Database.Record
import AimDb.Containers.Assoc
import AimDb.Session.Messages

/-!
# Databases

`configure` registers records, `build` checks them and collects what they contribute
to the runner. Everything after `build` goes through shared references: it may push
values, mark records, write remotely and collect again, and it never registers.
-/

namespace AimDb

open Containers

variable {types : Types} {Closure : Type}

structure Database (types : Types) (Closure : Type) where
  storages : List (String × AnyRecord types Closure)
  dependencyGraph : DependencyGraph

inductive SecurityPolicy where
  | readOnly
  | readWrite (writableRecords : List String)
  deriving DecidableEq, Repr

namespace Database

variable (db : Database types Closure)

def keys : List String := db.storages.map Prod.fst

def find (key : String) : Option (AnyRecord types Closure) := db.storages.lookup key

def set (key : String) (record : AnyRecord types Closure) : Database types Closure :=
  { db with storages := Assoc.replace db.storages key record }

def onRecord {Result : Type} (key : String)
    (run : ∀ t, TypedRecord types Closure t →
      TypedRecord types Closure t × Except DbError Result) :
    Database types Closure × Except DbError Result :=
  match db.find key with
  | none => (db, .error (.recordKeyNotFound key))
  | some ⟨t, r⟩ => (db.set key ⟨t, (run t r).1⟩, (run t r).2)

def setRecordFromJson (recordKey : String) (jsonValue : Json.Value) :
    Database types Closure × Except DbError Unit :=
  db.onRecord recordKey fun _ r => r.setFromJson jsonValue

def setRecordFromJsonBytes (recordKey : String) (bytes : List UInt8) :
    Database types Closure × Except DbError Unit :=
  db.onRecord recordKey fun _ r => r.setFromJsonBytes bytes

/-- A push by whoever holds a producer of the record's type. -/
def produce (key : String) (t : types.Ty) (value : types.Value t) : Database types Closure :=
  match db.find key with
  | some ⟨t', r⟩ => if same : t = t' then db.set key ⟨t', r.push (same ▸ value)⟩ else db
  | none => db

def setWritable (key : String) (writable : Bool) : Database types Closure :=
  match db.find key with
  | some ⟨t, r⟩ => db.set key ⟨t, { r with writable := writable }⟩
  | none => db

def collectAllFutures (key : String) : Database types Closure × Except DbError (List Closure) :=
  db.onRecord key fun _ r => r.collectAllFutures key

def mapDbErr : DbError → Session.RpcError
  | .recordKeyNotFound _ => .notFound
  | .invalidRecordId _ => .notFound
  | .permissionDenied _ => .denied
  | _ => .internal

def ensureWritable (policy : SecurityPolicy) (name : String) : Except Session.RpcError Unit :=
  match policy with
  | .readWrite writableRecords => if name ∈ writableRecords then .ok () else .error .denied
  | .readOnly => .error .denied

def remoteWrite (policy : SecurityPolicy) (name : String) (value : Json.Value) :
    Database types Closure × Except Session.RpcError Unit :=
  match ensureWritable policy name with
  | .error e => (db, .error e)
  | .ok () =>
      ((db.setRecordFromJson name value).1, (db.setRecordFromJson name value).2.mapError mapDbErr)

def strField (params : Json.Value) (key : String) : Option String :=
  match params.get key with
  | some (.string s) => some s
  | _ => none

/-- `record.set`; the reply's echo of the value is left out. -/
def recordSet (policy : SecurityPolicy) (params : Json.Value) :
    Database types Closure × Except Session.RpcError Unit :=
  match strField params "name" with
  | none => (db, .error .internal)
  | some name =>
      match params.get "value" with
      | none => (db, .error .internal)
      | some value => db.remoteWrite policy name value

/-- `write`; `parsed` is what the JSON library reads from the payload. -/
def write (policy : SecurityPolicy) (topic : String) (parsed : Option Json.Value) :
    Database types Closure × Except Session.RpcError Unit :=
  let v := parsed.getD .null
  db.remoteWrite policy topic ((v.get "value").getD v)

/-- What can happen to a running database. -/
inductive Operation (types : Types)
  | produce (key : String) (t : types.Ty) (value : types.Value t)
  | setWritable (key : String) (writable : Bool)
  | collectAllFutures (key : String)
  | setFromJson (key : String) (jsonValue : Json.Value)
  | setFromJsonBytes (key : String) (bytes : List UInt8)
  | recordSet (policy : SecurityPolicy) (params : Json.Value)
  | write (policy : SecurityPolicy) (topic : String) (parsed : Option Json.Value)

def perform : Operation types → Database types Closure
  | .produce key t value => db.produce key t value
  | .setWritable key writable => db.setWritable key writable
  | .collectAllFutures key => (db.collectAllFutures key).1
  | .setFromJson key jsonValue => (db.setRecordFromJson key jsonValue).1
  | .setFromJsonBytes key bytes => (db.setRecordFromJsonBytes key bytes).1
  | .recordSet policy params => (db.recordSet policy params).1
  | .write policy topic parsed => (db.write policy topic parsed).1

end Database

/-- The calls of a record's configuration closure. A link that does not compile is
reported instead of added. -/
inductive Registration (types : Types) (Closure : Type) (t : types.Ty)
  | source (service : Closure)
  | tap (consumer : Closure)
  | transform (descriptor : TransformDescriptor types Closure)
  | bufferRaw (buffer : List (types.Value t))
  | bufferWithCfg (buffer : List (types.Value t)) (cfg : BufferCfg)
  | bufferCfg (cfg : BufferCfg)
  | withRemoteAccess (codec : JsonCodec (types.Value t))
  | schema (name : String) (version : UInt32)
  | output (link : Except ConfigError Link)
  | input (link : Except ConfigError Link)

def Registration.apply {t : types.Ty} (r : TypedRecord types Closure t) :
    Registration types Closure t → TypedRecord types Closure t
  | .source service => r.setProducer service
  | .tap consumer => r.addConsumer consumer
  | .transform descriptor => r.setTransform descriptor
  | .bufferRaw buffer => r.setBuffer buffer
  | .bufferWithCfg buffer cfg => (r.setBuffer buffer).setBufferCfg cfg
  | .bufferCfg cfg => r.setBufferCfg cfg
  | .withRemoteAccess codec => r.withRemoteAccess codec
  | .schema name version => r.setSchema name version
  | .output (.ok link) => r.addOutboundConnector link
  | .output (.error err) => r.pushConfigError err
  | .input (.ok link) => r.addInboundConnector link
  | .input (.error err) => r.pushConfigError err

/-- A connector works on the database through a shared reference and contributes
futures. -/
structure ConnectorBuilder (types : Types) (Closure : Type) where
  scheme : String
  ownsScheme : Bool
  build : Database types Closure →
    List (Database.Operation types) × Except DbError (List Closure)

/-- A builder: every record has one collector, under its key. -/
structure AimDbBuilder (types : Types) (Closure : Type) where
  records : List (String × AnyRecord types Closure) := []
  spawnFns : List String := []
  hasRuntime : Bool := false
  configErrors : List ConfigError := []
  identityErrors : List String := []
  startOrderSeed : Option UInt64 := none
  connectorBuilders : List (ConnectorBuilder types Closure) := []
  startFns : List Closure := []
  distinct : (records.map Prod.fst).Nodup := by simp
  collectors : spawnFns = records.map Prod.fst := by rfl

namespace AimDbBuilder

def new : AimDbBuilder types Closure := {}

def runtime (b : AimDbBuilder types Closure) : AimDbBuilder types Closure :=
  { b with hasRuntime := true }

/-- Register with the record of a key, which is created on first use. -/
def configure (b : AimDbBuilder types Closure) (key : String) (t : types.Ty)
    (f : List (Registration types Closure t)) : AimDbBuilder types Closure :=
  match found : b.records.lookup key with
  | some ⟨t', r⟩ =>
      if same : t = t' then
        let f : List (Registration types Closure t') := same ▸ f
        { b with
          records := Assoc.replace b.records key ⟨t', f.foldl Registration.apply r⟩
          distinct := by rw [Assoc.keys_replace]; exact b.distinct
          collectors := by rw [Assoc.keys_replace, b.collectors] }
      else
        { b with configErrors := b.configErrors ++
            [⟨key, none, "key already registered with a different type"⟩] }
  | none =>
      { b with
        records := b.records ++ [(key, ⟨t, f.foldl Registration.apply {}⟩)]
        spawnFns := b.spawnFns ++ [key]
        distinct := Assoc.nodup_keys_append b.distinct found
        collectors := by rw [b.collectors, List.map_append]; rfl }

/-- The mistakes of one record: those it drains, writers that race, links without a buffer. -/
def recordErrors (key : String) (record : AnyRecord types Closure) : List ConfigError :=
  let r := record.2
  let recorded := r.drainConfigErrors.map fun e =>
    if e.recordKey = "" then { e with recordKey := key } else e
  let writers := (if r.hasProducer then ["source"] else []) ++
    (if r.hasTransform then ["transform"] else []) ++
    (if r.inboundConnectors ≠ [] then ["inbound link"] else [])
  let conflicts :=
    if 1 < writers.length then
      let kinds := " + ".intercalate writers
      [⟨key, r.inboundConnectors.head?.map Link.url,
        s!"conflicting writers: record has {kinds}; these are mutually exclusive (all write the " ++
          "same buffer)"⟩]
    else []
  let hasLinks := r.outboundConnectors ≠ [] ∨ r.inboundConnectors ≠ []
  let unbuffered :=
    if hasLinks ∧ !r.hasBuffer then
      [⟨key, (r.outboundConnectors.head?.map Link.url).or
        (r.inboundConnectors.head?.map Link.url),
        "linked record requires a buffer (call .buffer(...))"⟩]
    else []
  recorded ++ conflicts ++ unbuffered

def registry :
    List (String × AnyRecord types Closure) → List (String × AnyRecord types Closure) →
    List (String × AnyRecord types Closure) × List ConfigError
  | storages, [] => (storages, [])
  | storages, (key, record) :: rest =>
      if key ∈ storages.map Prod.fst then
        let (storages, errors) := registry storages rest
        (storages, ⟨key, none, "duplicate record key"⟩ :: errors)
      else registry (storages ++ [(key, record)]) rest

def inputErrors (storages : List (String × AnyRecord types Closure)) : List ConfigError :=
  storages.flatMap fun entry =>
    entry.2.2.transformInputTypes.filterMap fun (inputKey, t) =>
      match storages.lookup inputKey with
      | none => none
      | some input =>
          if input.1 = t then none
          else some ⟨entry.1, none,
            s!"transform reads input '{inputKey}' as {types.typeName t}, " ++
            s!"but that record holds {types.typeName input.1}"⟩

def graphNode (entry : String × AnyRecord types Closure) : GraphNode :=
  let r := entry.2.2
  ⟨entry.1, r.recordOrigin, r.bufferInfo.1, r.bufferInfo.2, r.consumerCount,
    r.outboundConnectors ≠ [], r.outboundConnectors.map Link.url, r.schema⟩

def displayGraphError : DbError → String
  | .transformInputNotFound outputKey inputKey =>
      s!"Transform on '{outputKey}' references unregistered input '{inputKey}'"
  | .cyclicDependency records =>
      let names := ", ".intercalate (records.map String.quote)
      s!"Cyclic dependency detected among records: [{names}]"
  | _ => ""

def invalidConfiguration (errors : List ConfigError) : DbError :=
  .invalidConfiguration (errors.map ConfigError.display)

def collect : List String → List String → Database types Closure →
    Except DbError (Database types Closure × List Closure)
  | [], _, db => .ok (db, [])
  | key :: order, spawnFns, db =>
      if key ∈ spawnFns ∧ (db.find key).isSome then
        match db.collectAllFutures key with
        | (_, .error e) => .error e
        | (db, .ok futures) =>
            (collect order (spawnFns.erase key) db).map fun (db, rest) => (db, futures ++ rest)
      else collect order spawnFns db

/-- The schemes that a later connector registers again though it owns them. -/
def duplicateSchemes (connectorBuilders : List (ConnectorBuilder types Closure)) : List String :=
  (connectorBuilders.zipIdx.filter fun (builder, i) =>
    builder.ownsScheme && ((connectorBuilders.take i).any (·.scheme == builder.scheme))).map
    (·.1.scheme) |>.dedup

def duplicateSchemeError (scheme : String) : ConfigError :=
  ⟨"", some scheme, s!"More than one connector registered for scheme '{scheme}'. Routes are " ++
    "collected by scheme alone, so each connector would claim all of them: every `link_to` " ++
    "would publish twice, and the routes cannot be divided between the two. Register one " ++
    "connector for this scheme, or give one of them a distinct scheme."⟩

def connect : List (ConnectorBuilder types Closure) → Database types Closure →
    Except DbError (Database types Closure × List Closure)
  | [], db => .ok (db, [])
  | builder :: rest, db =>
      match builder.build db with
      | (_, .error e) => .error e
      | (operations, .ok futures) =>
          (connect rest (operations.foldl Database.perform db)).map fun (db, more) =>
            (db, futures ++ more)

/-- The order a hash set yields its keys in. -/
structure KeyOrder where
  order : List String → List String
  perm : ∀ keys, (order keys).Perm keys

/-- `none` is a run that does not end. -/
def build (b : AimDbBuilder types Closure) (keyOrder : KeyOrder) :
    Option (Except DbError (Database types Closure × List Closure)) :=
  let identity := b.identityErrors.map fun message => (⟨"", none, message⟩ : ConfigError)
  let recorded := b.records.flatMap fun entry => recordErrors entry.1 entry.2
  let runtime := if b.hasRuntime then [] else
    [(⟨"", none, "runtime not set (use .runtime())"⟩ : ConfigError)]
  let (storages, duplicates) := registry [] b.records
  let errors := b.configErrors ++ identity ++ recorded ++ runtime ++ duplicates ++
    inputErrors storages
  let nodes := storages.map graphNode
  match DependencyGraph.buildAndValidateSeeded (keyOrder.order (nodes.map GraphNode.key)) nodes
      b.startOrderSeed with
  | none => none
  | some (.error e) =>
      some (.error (invalidConfiguration (errors ++ [⟨"", none, displayGraphError e⟩])))
  | some (.ok dependencyGraph) =>
      if errors ≠ [] then some (.error (invalidConfiguration errors))
      else
        let storages := storages.map fun (key, record) =>
          (key, (⟨record.1, { record.2 with hasClock := true, configErrors := [] }⟩ :
            AnyRecord types Closure))
        match collect dependencyGraph.topoOrder b.spawnFns ⟨storages, dependencyGraph⟩ with
        | .error e => some (.error e)
        | .ok (db, futures) =>
            let schemes := duplicateSchemes b.connectorBuilders
            if schemes ≠ [] then
              some (.error (invalidConfiguration (schemes.map duplicateSchemeError)))
            else
              match connect b.connectorBuilders db with
              | .error e => some (.error e)
              | .ok (db, more) => some (.ok (db, futures ++ more ++ b.startFns))

end AimDbBuilder

end AimDb
