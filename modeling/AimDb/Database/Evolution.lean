import AimDb.Database.Builder
import AimDb.Graph.TopoOrder

/-!
# What becomes of the records

Building a database collects every record once; running it pushes values, marks
records and may collect again.  What these few changes keep, a database keeps from
`build` on.
-/

namespace AimDb

open Containers

variable {types : Types} {Closure : Type} {t : types.Ty}

namespace TypedRecord

variable (r : TypedRecord types Closure t)

theorem collectProducerFuture_fst : r.collectProducerFuture.1 = { r with producer := none } := by
  unfold collectProducerFuture
  cases r.producer <;> rfl

theorem collectTransformFutures_fst :
    r.collectTransformFutures.1 = { r with transform := none } := by
  unfold collectTransformFutures
  cases r.transform <;> rfl

theorem collectConsumerFutures_fst (recordKey : String) :
    (r.collectConsumerFutures recordKey).1 = { r with consumers := [] } := by
  unfold collectConsumerFutures
  cases r.buffer <;> rfl

theorem producerPart :
    (if r.hasProducer then r.collectProducerFuture else (r, .ok none)) =
      r.collectProducerFuture := by
  cases r with
  | mk producer => cases producer <;> rfl

theorem transformPart :
    (if r.hasTransform then r.collectTransformFutures else (r, .ok [])) =
      r.collectTransformFutures := by
  cases r with
  | mk producer consumers transform => cases transform <;> rfl

theorem consumerPart_fst (recordKey : String) :
    (if 0 < r.consumerCount then r.collectConsumerFutures recordKey else (r, .ok [])).1 =
      { r with consumers := [] } := by
  split
  · exact r.collectConsumerFutures_fst recordKey
  · rename_i untapped
    cases r with
    | mk producer consumers =>
        obtain rfl : consumers = [] :=
          List.eq_nil_of_length_eq_zero (Nat.eq_zero_of_not_pos untapped)
        rfl

/-- Collecting empties the slots one after the other, and all of them when it ends well. -/
theorem collectAllFutures_spec (recordKey : String) :
    ∃ transform consumers,
      (r.collectAllFutures recordKey).1 =
          { r with producer := none, transform := transform, consumers := consumers } ∧
        (transform = none ∨ transform = r.transform) ∧
        (consumers = [] ∨ consumers = r.consumers) ∧
        ∀ futures, (r.collectAllFutures recordKey).2 = .ok futures →
          transform = none ∧ consumers = [] := by
  unfold collectAllFutures
  rw [producerPart]
  have first := r.collectProducerFuture_fst
  generalize r.collectProducerFuture = outcome at first ⊢
  obtain ⟨r₁, producer⟩ := outcome
  obtain rfl : r₁ = { r with producer := none } := first
  cases producer with
  | error e =>
      exact ⟨r.transform, r.consumers, rfl, .inr rfl, .inr rfl, fun _ same => by cases same⟩
  | ok producer =>
      dsimp only
      rw [transformPart]
      have second := collectTransformFutures_fst { r with producer := none }
      generalize TypedRecord.collectTransformFutures { r with producer := none } =
        outcome at second ⊢
      obtain ⟨r₂, transform⟩ := outcome
      obtain rfl : r₂ = { r with producer := none, transform := none } := second
      cases transform with
      | error e =>
          exact ⟨none, r.consumers, rfl, .inl rfl, .inr rfl, fun _ same => by cases same⟩
      | ok transform =>
          refine ⟨none, [], ?_, .inl rfl, .inl rfl, fun _ _ => ⟨rfl, rfl⟩⟩
          exact consumerPart_fst { r with producer := none, transform := none } recordKey

theorem setFrom_fst (decode : JsonCodec (types.Value t) → Option (types.Value t)) :
    (r.setFrom decode).1 = r ∨ ∃ value, (r.setFrom decode).1 = r.push value := by
  unfold setFrom
  cases r.remoteWriteCodec with
  | error e => exact .inl rfl
  | ok codec =>
      dsimp only
      cases decode codec with
      | none => exact .inl rfl
      | some value =>
          unfold commitRemoteWrite
          cases r.writerHandle with
          | error e => exact .inl rfl
          | ok => exact .inr ⟨value, rfl⟩

end TypedRecord

namespace Database

variable {db after last : Database types Closure}

/-- Every record is as `holds` has it. -/
def Every (holds : String → AnyRecord types Closure → Prop)
    (db : Database types Closure) : Prop :=
  ∀ entry ∈ db.storages, holds entry.1 entry.2

/-- Nothing that happens to a record after its registration ends it. -/
structure Stable (holds : String → AnyRecord types Closure → Prop) : Prop where
  push : ∀ {key t r} (value : types.Value t), holds key ⟨t, r⟩ →
    holds key ⟨t, r.push value⟩
  writable : ∀ {key t} {r : TypedRecord types Closure t} (writable : Bool),
    holds key ⟨t, r⟩ →
    holds key ⟨t, { r with writable := writable }⟩
  collect : ∀ {key t} {r : TypedRecord types Closure t} (recordKey : String),
    holds key ⟨t, r⟩ →
    holds key ⟨t, (r.collectAllFutures recordKey).1⟩

structure Evolves (db after : Database types Closure) : Prop where
  keys : after.keys = db.keys
  graph : after.dependencyGraph = db.dependencyGraph
  stable : ∀ {holds}, Stable holds → db.Every holds → after.Every holds

theorem Evolves.refl (db : Database types Closure) : db.Evolves db :=
  ⟨rfl, rfl, fun _ every => every⟩

theorem Evolves.trans (first : db.Evolves after) (second : after.Evolves last) :
    db.Evolves last where
  keys := second.keys.trans first.keys
  graph := second.graph.trans first.graph
  stable stable every := second.stable stable (first.stable stable every)

theorem Every.find {holds : String → AnyRecord types Closure → Prop} (every : db.Every holds)
    {key : String} {record : AnyRecord types Closure} (found : db.find key = some record) :
    holds key record :=
  every _ (Assoc.mem_of_lookup found)

theorem Every.set {holds : String → AnyRecord types Closure → Prop} (every : db.Every holds)
    {key : String} {record : AnyRecord types Closure} (also : holds key record) :
    (db.set key record).Every holds := by
  intro entry mem
  rcases Assoc.mem_replace mem with rfl | ⟨-, inStorages⟩
  · exact also
  · exact every _ inStorages

theorem evolves_set {key : String} {before record : AnyRecord types Closure}
    (found : db.find key = some before)
    (kept : ∀ {holds}, Stable holds → holds key before → holds key record) :
    db.Evolves (db.set key record) where
  keys := Assoc.keys_replace _ _ _
  graph := rfl
  stable stable every := every.set (kept stable (every.find found))

theorem evolves_onRecord {Result : Type} (key : String)
    {run : ∀ t, TypedRecord types Closure t →
      TypedRecord types Closure t × Except DbError Result}
    (kept : ∀ {holds : String → AnyRecord types Closure → Prop} {t r}, Stable holds →
      holds key ⟨t, r⟩ → holds key ⟨t, (run t r).1⟩) :
        db.Evolves (db.onRecord key run).1 := by
  unfold onRecord
  cases found : db.find key with
  | none => exact .refl db
  | some record => exact evolves_set found kept

theorem evolves_setFrom (key : String) (decode : ∀ t, JsonCodec (types.Value t) →
    Option (types.Value t)) :
    db.Evolves (db.onRecord key fun t r => r.setFrom (decode t)).1 := by
  apply evolves_onRecord
  intro holds t r stable held
  rcases r.setFrom_fst (decode t) with same | ⟨value, pushed⟩
  · rwa [same]
  · rw [pushed]
    exact stable.push value held

theorem evolves_remoteWrite (policy : SecurityPolicy) (name : String) (value : Json.Value) :
    db.Evolves (db.remoteWrite policy name value).1 := by
  unfold remoteWrite
  cases ensureWritable policy name with
  | error e => exact .refl db
  | ok => exact evolves_setFrom name fun _ codec => codec.decode value

theorem evolves_produce (key : String) (t : types.Ty) (value : types.Value t) :
    db.Evolves (db.produce key t value) := by
  unfold produce
  cases found : db.find key with
  | none => exact .refl db
  | some record =>
      dsimp only
      split
      · exact evolves_set found fun stable held => stable.push _ held
      · exact .refl db

theorem evolves_setWritable (key : String) (writable : Bool) :
    db.Evolves (db.setWritable key writable) := by
  unfold setWritable
  cases found : db.find key with
  | none => exact .refl db
  | some record => exact evolves_set found fun stable held => stable.writable writable held

theorem evolves_collectAllFutures (key : String) : db.Evolves (db.collectAllFutures key).1 :=
  evolves_onRecord key fun stable held => stable.collect key held

theorem evolves_recordSet (policy : SecurityPolicy) (params : Json.Value) :
    db.Evolves (db.recordSet policy params).1 := by
  unfold recordSet
  cases strField params "name" with
  | none => exact .refl db
  | some name =>
      dsimp only
      cases params.get "value" with
      | none => exact .refl db
      | some value => exact evolves_remoteWrite policy name value

theorem evolves_perform (operation : Operation types) : db.Evolves (db.perform operation) := by
  cases operation with
  | produce key t value => exact evolves_produce key t value
  | setWritable key writable => exact evolves_setWritable key writable
  | collectAllFutures key => exact evolves_collectAllFutures key
  | setFromJson key jsonValue => exact evolves_setFrom key fun _ codec => codec.decode jsonValue
  | setFromJsonBytes key bytes => exact evolves_setFrom key fun _ codec => codec.decodeSlice bytes
  | recordSet policy params => exact evolves_recordSet policy params
  | write policy topic parsed => exact evolves_remoteWrite policy topic _

theorem evolves_performAll (operations : List (Operation types)) :
    db.Evolves (operations.foldl perform db) := by
  induction operations generalizing db with
  | nil => exact .refl db
  | cons operation operations inductionHypothesis =>
      exact (evolves_perform operation).trans inductionHypothesis

def Settles (holds : String → AnyRecord types Closure → Prop) : Prop :=
  ∀ {t} (r : TypedRecord types Closure t) key futures,
    (r.collectAllFutures key).2 = .ok futures → holds key ⟨t, (r.collectAllFutures key).1⟩

theorem collectAllFutures_entries {holds : String → AnyRecord types Closure → Prop}
    (settles : Settles holds) (key : String)
    (done : ∃ futures, (db.collectAllFutures key).2 = .ok futures) :
    ∀ entry ∈ (db.collectAllFutures key).1.storages,
      holds entry.1 entry.2 ∨ entry.1 ≠ key ∧ entry ∈ db.storages := by
  unfold collectAllFutures onRecord at done ⊢
  cases found : db.find key with
  | none =>
      rw [found] at done
      obtain ⟨futures, same⟩ := done
      cases same
  | some record =>
      rw [found] at done
      obtain ⟨futures, same⟩ := done
      intro entry mem
      rcases Assoc.mem_replace mem with rfl | other
      · exact .inl (settles record.2 key futures same)
      · exact .inr other

end Database

theorem DependencyGraph.nodes_of_ok {allKeys : List String} {nodes : List GraphNode}
    {seed : Option UInt64} {graph : DependencyGraph}
    (built : buildAndValidateSeeded allKeys nodes seed = some (.ok graph)) :
    graph.nodes = nodes := by
  unfold buildAndValidateSeeded at built
  split at built
  · cases built
  · dsimp only at built
    split at built
    · cases built
    · split at built
      · cases built
      · cases built
        rfl

namespace AimDbBuilder

variable {db after : Database types Closure} {futures : List Closure}

theorem collect_cons {key : String} {order spawnFns : List String}
    (runs : key ∈ spawnFns ∧ (db.find key).isSome)
    (ran : collect (key :: order) spawnFns db = .ok (after, futures)) :
    (∃ first, (db.collectAllFutures key).2 = .ok first) ∧
      ∃ rest, collect order (spawnFns.erase key) (db.collectAllFutures key).1 =
        .ok (after, rest) := by
  rw [collect, if_pos runs] at ran
  generalize db.collectAllFutures key = outcome at ran ⊢
  obtain ⟨next, result⟩ := outcome
  cases result with
  | error e => cases ran
  | ok first =>
      dsimp only at ran
      cases rested : collect order (spawnFns.erase key) next with
      | error e =>
          rw [rested] at ran
          cases ran
      | ok outcome =>
          rw [rested] at ran
          cases ran
          exact ⟨⟨first, rfl⟩, outcome.2, rfl⟩

theorem connect_cons {builder : ConnectorBuilder types Closure}
    {rest : List (ConnectorBuilder types Closure)}
    (ran : connect (builder :: rest) db = .ok (after, futures)) :
    ∃ more, connect rest ((builder.build db).1.foldl Database.perform db) =
        .ok (after, more) := by
  rw [connect] at ran
  generalize builder.build db = outcome at ran ⊢
  obtain ⟨operations, result⟩ := outcome
  cases result with
  | error e => cases ran
  | ok first =>
      dsimp only at ran
      cases rested : connect rest (operations.foldl Database.perform db) with
      | error e =>
          rw [rested] at ran
          cases ran
      | ok outcome =>
          rw [rested] at ran
          cases ran
          exact ⟨outcome.2, rfl⟩

theorem evolves_collect {order spawnFns : List String}
    (ran : collect order spawnFns db = .ok (after, futures)) : db.Evolves after := by
  induction order generalizing spawnFns db futures with
  | nil =>
      cases ran
      exact .refl _
  | cons key order inductionHypothesis =>
      by_cases runs : key ∈ spawnFns ∧ (db.find key).isSome
      · obtain ⟨-, rest, rested⟩ := collect_cons runs ran
        exact (Database.evolves_collectAllFutures key).trans (inductionHypothesis rested)
      · rw [collect, if_neg runs] at ran
        exact inductionHypothesis ran

theorem evolves_connect {connectorBuilders : List (ConnectorBuilder types Closure)}
    (ran : connect connectorBuilders db = .ok (after, futures)) : db.Evolves after := by
  induction connectorBuilders generalizing db futures with
  | nil =>
      cases ran
      exact .refl _
  | cons builder rest inductionHypothesis =>
      obtain ⟨more, rested⟩ := connect_cons ran
      exact (Database.evolves_performAll _).trans (inductionHypothesis rested)

theorem collect_settles {holds : String → AnyRecord types Closure → Prop}
    (settles : Database.Settles holds)
    {order spawnFns : List String} (ran : collect order spawnFns db = .ok (after, futures))
    (reached : ∀ entry ∈ db.storages,
      holds entry.1 entry.2 ∨ entry.1 ∈ order ∧ entry.1 ∈ spawnFns) :
        after.Every holds := by
  induction order generalizing spawnFns db futures with
  | nil =>
      cases ran
      intro entry mem
      rcases reached entry mem with held | ⟨inside, _⟩
      · exact held
      · cases inside
  | cons key order inductionHypothesis =>
      by_cases runs : key ∈ spawnFns ∧ (db.find key).isSome
      · obtain ⟨done, rest, rested⟩ := collect_cons runs ran
        refine inductionHypothesis rested fun entry mem => ?_
        rcases Database.collectAllFutures_entries settles key done entry mem with
          held | ⟨other, before⟩
        · exact .inl held
        · rcases reached entry before with held | ⟨inside, collector⟩
          · exact .inl held
          · exact .inr ⟨List.mem_of_ne_of_mem other inside,
              (List.mem_erase_of_ne other).mpr collector⟩
      · rw [collect, if_neg runs] at ran
        refine inductionHypothesis ran fun entry mem => ?_
        rcases reached entry mem with held | ⟨inside, collector⟩
        · exact .inl held
        · rcases List.mem_cons.mp inside with rfl | later
          · have known : (db.find entry.1).isSome :=
              Assoc.lookup_isSome_iff.mpr (List.mem_map_of_mem mem)
            exact absurd ⟨collector, known⟩ runs
          · exact .inr ⟨later, collector⟩

theorem registry_of_nodup {storages records : List (String × AnyRecord types Closure)}
    (distinct : ((storages ++ records).map Prod.fst).Nodup) :
    registry storages records = (storages ++ records, []) := by
  induction records generalizing storages with
  | nil => simp [registry]
  | cons entry records inductionHypothesis =>
      have fresh : entry.1 ∉ storages.map Prod.fst := by
        rw [List.map_append, List.map_cons] at distinct
        intro inside
        exact (List.nodup_append.mp distinct).2.2 _ inside _ List.mem_cons_self rfl
      have moved := @inductionHypothesis (storages ++ [entry])
        (by rwa [List.append_assoc])
      rw [registry, if_neg fresh, moved, List.append_assoc]
      rfl

/-- The records as `build` binds them to its clock. -/
def boundStorages (b : AimDbBuilder types Closure) : List (String × AnyRecord types Closure) :=
  b.records.map fun (key, record) =>
    (key, ⟨record.1, { record.2 with hasClock := true, configErrors := [] }⟩)

theorem build_ok {b : AimDbBuilder types Closure} {keyOrder : KeyOrder}
    (built : b.build keyOrder = some (.ok (db, futures))) :
    (∀ entry ∈ b.records, recordErrors entry.1 entry.2 = []) ∧
    ∃ graph collected first more,
      DependencyGraph.buildAndValidateSeeded
          (keyOrder.order ((b.records.map graphNode).map GraphNode.key))
          (b.records.map graphNode) b.startOrderSeed = some (.ok graph) ∧
        collect graph.topoOrder b.spawnFns ⟨b.boundStorages, graph⟩ = .ok (collected, first) ∧
        connect b.connectorBuilders collected = .ok (db, more) := by
  unfold build at built
  rw [registry_of_nodup (by simpa using b.distinct)] at built
  dsimp only [List.nil_append] at built
  generalize found : (_ ++ inputErrors b.records : List ConfigError) = errors at built
  split at built
  · cases built
  · cases built
  · rename_i graph valid
    split at built
    · cases built
    · rename_i clean
      rw [not_not] at clean
      subst clean
      simp only [List.append_eq_nil_iff, List.flatMap_eq_nil_iff] at found
      split at built
      · cases built
      · rename_i collected first ran
        split at built
        · cases built
        · cases connected : connect b.connectorBuilders collected with
          | error e =>
              rw [connected] at built
              cases built
          | ok outcome =>
              rw [connected] at built
              cases built
              exact ⟨found.1.1.1.2, graph, collected, first, outcome.2, valid, ran, connected⟩

theorem build_evolves {b : AimDbBuilder types Closure} {keyOrder : KeyOrder}
    (built : b.build keyOrder = some (.ok (db, futures))) :
    db.dependencyGraph.nodes = b.records.map graphNode ∧ db.keys = b.records.map Prod.fst ∧
      ∀ {holds}, Database.Stable holds →
      (∀ entry ∈ b.boundStorages, holds entry.1 entry.2) →
        db.Every holds := by
  obtain ⟨-, graph, collected, first, more, valid, ran, connected⟩ := build_ok built
  have evolves := (evolves_collect ran).trans (evolves_connect connected)
  have nodes : graph.nodes = b.records.map graphNode := DependencyGraph.nodes_of_ok valid
  have keys : b.boundStorages.map Prod.fst = b.records.map Prod.fst := by
    rw [boundStorages, List.map_map]
    rfl
  exact ⟨by rw [evolves.graph, nodes], evolves.keys.trans keys, evolves.stable⟩

theorem build_settles {b : AimDbBuilder types Closure} {keyOrder : KeyOrder}
    (built : b.build keyOrder = some (.ok (db, futures)))
    {holds : String → AnyRecord types Closure → Prop} (stable : Database.Stable holds)
    (settles : Database.Settles holds) : db.Every holds := by
  obtain ⟨-, graph, collected, first, more, valid, ran, connected⟩ := build_ok built
  have keys : (b.records.map graphNode).map GraphNode.key = b.records.map Prod.fst := by
    rw [List.map_map]
    rfl
  obtain ⟨result, same, -, sorted⟩ := DependencyGraph.buildAndValidateSeeded_sorts
    (keys ▸ b.distinct) (keyOrder.perm _) b.startOrderSeed
  rw [valid] at same
  have order := (sorted graph (Option.some.inj same).symm).2.perm
  apply (evolves_connect connected).stable stable
  refine collect_settles settles ran fun entry mem => .inr ?_
  obtain ⟨registered, inRecords, rfl⟩ := List.mem_map.mp mem
  have isKey : registered.1 ∈ b.records.map Prod.fst := List.mem_map_of_mem inRecords
  exact ⟨order.mem_iff.mpr (keys ▸ isKey), b.collectors ▸ isKey⟩

end AimDbBuilder

end AimDb
