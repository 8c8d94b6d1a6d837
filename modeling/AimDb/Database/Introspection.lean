import AimDb.Database.Override

/-!
# Two views of a record

The dependency graph describes the records as they were registered. The listing
reads their slots as they are, and collecting has emptied those by the time a
database runs.
-/

namespace AimDb

open Containers

variable {types : Types} {Closure : Type}

/-- Everything after the last dot or slash. -/
def topicLeaf (key : String) : String :=
  String.ofList (key.toList.reverse.takeWhile fun c => c ≠ '.' && c ≠ '/').reverse

/-- Metadata about one record; the key tables and the metrics are left out. -/
structure RecordMetadata (types : Types) where
  recordId : ℕ
  recordKey : String
  name : String
  typeId : types.Ty
  origin : RecordOrigin
  bufferType : String
  bufferCapacity : Option ℕ
  producerCount : ℕ
  consumerCount : ℕ
  writable : Bool
  outboundConnectorCount : ℕ
  schemaType : Option String := none
  schemaVersion : Option UInt32 := none
  entity : Option String

def RecordMetadata.withSchema (metadata : RecordMetadata types) (schema : Option SchemaInfo) :
    RecordMetadata types :=
  match schema with
  | some schema =>
      { metadata with schemaType := some schema.name, schemaVersion := some schema.version }
  | none => metadata

def TypedRecord.collectMetadata {t : types.Ty} (r : TypedRecord types Closure t) (key : String)
    (id : ℕ) : RecordMetadata types :=
  let (bufferType, bufferCapacity) :=
    match r.bufferCfg with
    | some cfg => (cfg.name, cfg.capacity)
    | none => ("none", none)
  RecordMetadata.withSchema
    { recordId := id
      recordKey := key
      name := types.typeName t
      typeId := t
      origin := r.recordOrigin
      bufferType := bufferType
      bufferCapacity := bufferCapacity
      producerCount := if r.hasProducer then 1 else 0
      consumerCount := r.consumerCount
      writable := r.writable
      outboundConnectorCount := r.outboundConnectors.length
      entity := some (topicLeaf key) } r.schema

def Database.listRecords (db : Database types Closure) : List (RecordMetadata types) :=
  db.storages.zipIdx.map fun (entry, id) => entry.2.2.collectMetadata entry.1 id

namespace TypedRecord

variable {t : types.Ty} (r : TypedRecord types Closure t) (key : String) (id : ℕ)

@[simp] theorem collectMetadata_recordKey : (r.collectMetadata key id).recordKey = key := by
  unfold collectMetadata RecordMetadata.withSchema
  cases r.schema <;> rfl

@[simp] theorem collectMetadata_origin : (r.collectMetadata key id).origin = r.recordOrigin := by
  unfold collectMetadata RecordMetadata.withSchema
  cases r.schema <;> rfl

@[simp] theorem collectMetadata_producerCount :
    (r.collectMetadata key id).producerCount = if r.hasProducer then 1 else 0 := by
  unfold collectMetadata RecordMetadata.withSchema
  cases r.schema <;> rfl

@[simp] theorem collectMetadata_consumerCount :
    (r.collectMetadata key id).consumerCount = r.consumers.length := by
  unfold collectMetadata RecordMetadata.withSchema
  cases r.schema <;> rfl

end TypedRecord

structure SameView (metadata : RecordMetadata types) (node : GraphNode) : Prop where
  origin : metadata.origin = node.origin
  taps : metadata.consumerCount = node.tapCount
  producer : metadata.producerCount = 1 ↔ node.origin = .source

def Database.ViewsAgree (db : Database types Closure) (key : String) : Prop :=
  ∀ metadata ∈ db.listRecords, ∀ node ∈ db.dependencyGraph.nodes,
    metadata.recordKey = key → node.key = key → SameView metadata node

namespace TypedRecord

variable {t : types.Ty} {r : TypedRecord types Closure t}

/-- Nothing writes the record or taps it except links. -/
structure Unowned (r : TypedRecord types Closure t) : Prop where
  producer : r.producer = none
  transform : r.transform = none
  consumers : r.consumers = []

theorem exclusive_of_recordErrors {key : String}
    (clean : AimDbBuilder.recordErrors key ⟨t, r⟩ = []) (owned : r.producer.isSome = true) :
    r.transform = none ∧ r.inboundConnectors = [] := by
  have few : ¬ 1 < ((if r.hasProducer then ["source"] else []) ++
      (if r.hasTransform then ["transform"] else []) ++
      (if r.inboundConnectors ≠ [] then ["inbound link"] else [])).length := by
    intro many
    simp only [AimDbBuilder.recordErrors, if_pos many, List.append_eq_nil_iff] at clean
    exact absurd clean.1.2 (List.cons_ne_nil _ _)
  rw [List.length_append, List.length_append, if_pos (show r.hasProducer = true from owned)] at few
  constructor
  · cases held : r.transform with
    | none => rfl
    | some descriptor =>
        exfalso
        apply few
        rw [hasTransform, held, Option.isSome_some, if_pos rfl]
        simp only [List.length_singleton]
        omega
  · by_contra linked
    simp [linked] at few

def linkOrigin : List Link → RecordOrigin
  | link :: _ => .link link.scheme link.url
  | [] => .passive

theorem linkOrigin_ne_source (links : List Link) : linkOrigin links ≠ .source := by
  cases links <;> exact fun same => by cases same

theorem recordOrigin_of_unowned {kept : TypedRecord types Closure t} (unowned : kept.Unowned) :
    kept.recordOrigin = linkOrigin kept.inboundConnectors := by
  unfold recordOrigin
  rw [unowned.transform, unowned.producer]
  cases kept.inboundConnectors <;> rfl

theorem recordOrigin_of_transform {descriptor : TransformDescriptor types Closure}
    (held : r.transform = some descriptor) (links : List Link) :
    r.recordOrigin ≠ linkOrigin links := by
  unfold recordOrigin
  rw [held]
  dsimp only
  split <;> cases links <;> exact fun same => by cases same

theorem recordOrigin_of_source {key : String}
    (clean : AimDbBuilder.recordErrors key ⟨t, r⟩ = [])
    (owned : r.producer.isSome = true) : r.recordOrigin = .source := by
  obtain ⟨free, unlinked⟩ := exclusive_of_recordErrors clean owned
  unfold recordOrigin
  rw [free, unlinked, if_pos owned]

/-- The view of an emptied record agrees with that of the registered one when there was
nothing to empty. -/
theorem sameView_iff {key : String} {id : ℕ} {t' : types.Ty} {kept : TypedRecord types Closure t'}
    (clean : AimDbBuilder.recordErrors key ⟨t, r⟩ = []) (unowned : kept.Unowned)
    (links : kept.inboundConnectors = r.inboundConnectors) :
    SameView (kept.collectMetadata key id) (AimDbBuilder.graphNode (key, ⟨t, r⟩)) ↔
        r.Unowned := by
  have listed : (kept.collectMetadata key id).origin = linkOrigin r.inboundConnectors := by
    rw [collectMetadata_origin, recordOrigin_of_unowned unowned, links]
  have untapped : (kept.collectMetadata key id).consumerCount = 0 := by
    rw [collectMetadata_consumerCount, unowned.consumers]
    rfl
  have unproduced : (kept.collectMetadata key id).producerCount = 0 := by
    rw [collectMetadata_producerCount, hasProducer, unowned.producer]
    rfl
  constructor
  · intro same
    have origin : r.recordOrigin = linkOrigin r.inboundConnectors := same.origin.symm.trans listed
    constructor
    · by_contra owned
      rw [recordOrigin_of_source clean (Option.isSome_iff_ne_none.mpr owned)] at origin
      exact linkOrigin_ne_source _ origin.symm
    · cases held : r.transform with
      | none => rfl
      | some descriptor => exact absurd origin (recordOrigin_of_transform held _)
    · exact List.eq_nil_of_length_eq_zero (same.taps.symm.trans untapped)
  · intro free
    have origin : r.recordOrigin = linkOrigin r.inboundConnectors := recordOrigin_of_unowned free
    constructor
    · exact listed.trans origin.symm
    · exact untapped.trans (congrArg List.length free.consumers).symm
    · rw [unproduced]
      apply iff_of_false Nat.zero_ne_one
      exact fun source => linkOrigin_ne_source _ (origin.symm.trans source)

theorem sameView_registered {key : String} {id : ℕ}
    (clean : AimDbBuilder.recordErrors key ⟨t, r⟩ = []) :
    SameView (r.collectMetadata key id) (AimDbBuilder.graphNode (key, ⟨t, r⟩)) := by
  constructor
  · exact r.collectMetadata_origin key id
  · exact r.collectMetadata_consumerCount key id
  · rw [collectMetadata_producerCount]
    change _ ↔ r.recordOrigin = .source
    by_cases owned : r.producer.isSome = true
    · exact iff_of_true (if_pos owned) (recordOrigin_of_source clean owned)
    · apply iff_of_false
      · rw [if_neg (show ¬ r.hasProducer = true from owned)]
        exact Nat.zero_ne_one
      · unfold recordOrigin
        rw [if_neg owned]
        split
        · split <;> exact fun same => by cases same
        · split <;> exact fun same => by cases same

end TypedRecord

namespace Database

def LinksOf (records : List (String × AnyRecord types Closure)) (key : String)
    (record : AnyRecord types Closure) : Prop :=
  ∀ registered, (key, registered) ∈ records →
    record.2.inboundConnectors = registered.2.inboundConnectors

theorem linksOf_stable (records : List (String × AnyRecord types Closure)) :
    Stable (LinksOf records) where
  push _ links := links
  writable _ links := links
  collect {key t r} recordKey links := by
    obtain ⟨transform, consumers, same, -⟩ := r.collectAllFutures_spec recordKey
    rw [same]
    exact links

theorem unowned_stable :
    @Stable types Closure fun _ record => record.2.Unowned where
  push _ held := ⟨held.producer, held.transform, held.consumers⟩
  writable _ held := ⟨held.producer, held.transform, held.consumers⟩
  collect {key t r} recordKey held := by
    obtain ⟨transform, consumers, same, taken, drained, -⟩ := r.collectAllFutures_spec recordKey
    rw [same]
    exact ⟨rfl, taken.elim id fun kept => kept.trans held.transform,
      drained.elim id fun kept => kept.trans held.consumers⟩

theorem unowned_settles :
    @Settles types Closure fun _ record => record.2.Unowned := by
  intro t r key futures done
  obtain ⟨transform, consumers, same, -, -, emptied⟩ := r.collectAllFutures_spec key
  rw [same]
  exact ⟨rfl, (emptied futures done).1, (emptied futures done).2⟩

end Database

/-- The two views of a running database agree on a record exactly when it was registered
without a source, a transform and taps. -/
theorem viewsAgree_iff {b : AimDbBuilder types Closure} {keyOrder : AimDbBuilder.KeyOrder}
    {db : Database types Closure} {futures : List Closure}
    (built : b.build keyOrder = some (.ok (db, futures)))
    (operations : List (Database.Operation types)) :
    ∀ entry ∈ b.records,
      (operations.foldl Database.perform db).ViewsAgree entry.1 ↔ entry.2.2.Unowned := by
  intro entry registered
  obtain ⟨clean, -⟩ := AimDbBuilder.build_ok built
  obtain ⟨nodes, keys, stable⟩ := AimDbBuilder.build_evolves built
  have evolves : db.Evolves (operations.foldl Database.perform db) :=
    Database.evolves_performAll operations
  generalize operations.foldl Database.perform db = last at evolves ⊢
  have emptied : last.Every fun _ record => record.2.Unowned :=
    evolves.stable Database.unowned_stable
      (AimDbBuilder.build_settles built Database.unowned_stable Database.unowned_settles)
  have linked : last.Every (Database.LinksOf b.records) := by
    apply evolves.stable (Database.linksOf_stable b.records)
    apply stable (Database.linksOf_stable b.records)
    intro bound isBound other isOther
    obtain ⟨before, inRecords, rfl⟩ := List.mem_map.mp isBound
    have same : before.2 = other := by
      apply Option.some.inj
      rw [← Assoc.lookup_of_mem b.distinct inRecords, ← Assoc.lookup_of_mem b.distinct isOther]
    rw [← same]
  have sameView : ∀ kept : AnyRecord types Closure, (entry.1, kept) ∈ last.storages → ∀ id,
      SameView (kept.2.collectMetadata entry.1 id) (AimDbBuilder.graphNode entry) ↔
        entry.2.2.Unowned := by
    intro kept isKept id
    exact TypedRecord.sameView_iff (clean entry registered) (emptied _ isKept)
      (linked _ isKept entry.2 registered)
  rw [Database.ViewsAgree, evolves.graph, nodes]
  constructor
  · intro agree
    have listed : entry.1 ∈ last.storages.map Prod.fst := by
      have all : last.storages.map Prod.fst = b.records.map Prod.fst := evolves.keys.trans keys
      rw [all]
      exact List.mem_map_of_mem registered
    obtain ⟨⟨key, kept⟩, isKept, rfl⟩ := List.mem_map.mp listed
    obtain ⟨id, bound, isAt⟩ := List.getElem_of_mem isKept
    refine (sameView kept isKept id).mp (agree _ ?_ _ (List.mem_map_of_mem registered) ?_ rfl)
    · apply List.mem_map.mpr
      refine ⟨((entry.1, kept), id), ?_, rfl⟩
      exact List.mk_mem_zipIdx_iff_getElem?.mpr (isAt ▸ List.getElem?_eq_getElem bound)
    · exact kept.2.collectMetadata_recordKey _ _
  · intro free metadata isListed node isNode sameKey nodeKey
    obtain ⟨⟨⟨key, kept⟩, id⟩, indexed, rfl⟩ := List.mem_map.mp isListed
    obtain ⟨other, isOther, rfl⟩ := List.mem_map.mp isNode
    obtain rfl : key = entry.1 := by simpa using sameKey
    have same : other = entry := by
      have otherKey : other.1 = entry.1 := nodeKey
      have first :=
        Assoc.lookup_of_mem b.distinct (show (other.1, other.2) ∈ b.records from isOther)
      have second :=
        Assoc.lookup_of_mem b.distinct (show (entry.1, entry.2) ∈ b.records from registered)
      rw [otherKey, second] at first
      exact Prod.ext otherKey (Option.some.inj first).symm
    rw [same]
    exact (sameView kept (List.fst_mem_of_mem_zipIdx indexed) id).mpr free

def plant : AimDbBuilder flags Unit :=
  (AimDbBuilder.new.runtime.configure "sensor" ()
    [.source (), .tap (), .bufferRaw []]).configure "setting" () [.bufferRaw []]

def plantDatabase : Database flags Unit :=
  ⟨[("sensor", ⟨(), { buffer := some [], hasClock := true }⟩),
    ("setting", ⟨(), { buffer := some [], hasClock := true }⟩)],
    ⟨plant.records.map AimDbBuilder.graphNode,
      (plant.records.map AimDbBuilder.graphNode).flatMap DependencyGraph.nodeEdges,
      ["sensor", "setting"]⟩⟩

theorem plant_build : plant.build asListed = some (.ok (plantDatabase, [(), ()])) := rfl

/-- The sensor is listed as passive and untapped, and its node is a source with a tap. -/
theorem sensor_disagrees :
    plant.build asListed = some (.ok (plantDatabase, [(), ()])) ∧
      (plantDatabase.listRecords.map fun metadata =>
          (metadata.recordKey, metadata.origin, metadata.producerCount, metadata.consumerCount)) =
        [("sensor", .passive, 0, 0), ("setting", .passive, 0, 0)] ∧
      (plantDatabase.dependencyGraph.nodes.map fun node => (node.key, node.origin, node.tapCount)) =
        [("sensor", .source, 1), ("setting", .passive, 0)] ∧
      ¬ plantDatabase.ViewsAgree "sensor" := by
  refine ⟨plant_build, rfl, rfl, fun agree => ?_⟩
  have first := agree _ List.mem_cons_self _ List.mem_cons_self rfl rfl
  exact absurd first.taps (by decide)

theorem viewsAgree_iff_setting : plantDatabase.ViewsAgree "setting" := by
  have registered : ("setting", ⟨(), { buffer := some [] }⟩) ∈ plant.records :=
    .tail _ (.head _)
  exact (viewsAgree_iff plant_build [] _ registered).mpr ⟨rfl, rfl, rfl⟩

end AimDb
