import AimDb.Database.Evolution

/-!
# No producer override

Remote writes are refused to records that hold a source or a transform. `build` takes
both out of the record to run them, and nothing puts them back, so the records of a
running database are written remotely whoever else writes them.
-/

namespace AimDb

open Containers

variable {types : Types} {Closure : Type} {t : types.Ty}

namespace TypedRecord

variable {r : TypedRecord types Closure t}

theorem remoteWriteCodec_of_owned (owned : r.hasProducer || r.hasTransform) :
    ∃ text, r.remoteWriteCodec = .error (.permissionDenied text) :=
  ⟨_, if_pos owned⟩

/-- What registered the record's values is gone. -/
structure Collected (r : TypedRecord types Closure t) : Prop where
  producer : r.producer = none
  transform : r.transform = none

theorem Collected.remoteWriteCodec (collected : r.Collected) (text : String) :
    r.remoteWriteCodec ≠ .error (.permissionDenied text) := by
  have free : ¬ (r.hasProducer || r.hasTransform) := by
    simp [hasProducer, hasTransform, collected.producer, collected.transform]
  rw [TypedRecord.remoteWriteCodec, if_neg free]
  cases r.remoteCodec with
  | none => exact fun same => by cases same
  | some codec => cases r.buffer <;> exact fun same => by cases same

theorem commitRemoteWrite_ne (value : types.Value t) (text : String) :
    (r.commitRemoteWrite value).2 ≠ .error (.permissionDenied text) := by
  unfold commitRemoteWrite writerHandle
  cases r.hasClock <;> exact fun same => by cases same

theorem Collected.setFrom_ne (collected : r.Collected)
    (decode : JsonCodec (types.Value t) → Option (types.Value t)) (text : String) :
    (r.setFrom decode).2 ≠ .error (.permissionDenied text) := by
  unfold TypedRecord.setFrom
  have passes := collected.remoteWriteCodec text
  cases checked : r.remoteWriteCodec with
  | error e =>
      intro same
      rw [checked] at passes
      exact passes (congrArg Except.error (Except.error.inj same))
  | ok codec =>
      dsimp only
      cases decode codec with
      | none => exact fun same => by cases same
      | some value => exact commitRemoteWrite_ne value text

end TypedRecord

namespace Database

variable {db : Database types Closure}

/-- Whatever registered the values of its records is gone. -/
def Collected (db : Database types Closure) : Prop :=
  ∀ entry ∈ db.storages, entry.2.2.Collected

theorem Collected.find (collected : db.Collected) {key : String}
    {record : AnyRecord types Closure} (found : db.find key = some record) :
    record.2.Collected :=
  collected _ (Assoc.mem_of_lookup found)

theorem collected_stable :
    @Stable types Closure fun _ record => record.2.Collected where
  push _ held := ⟨held.producer, held.transform⟩
  writable _ held := ⟨held.producer, held.transform⟩
  collect {key t r} recordKey held := by
    obtain ⟨transform, consumers, same, taken, -⟩ := r.collectAllFutures_spec recordKey
    rw [same]
    exact ⟨rfl, taken.elim id fun kept => kept.trans held.transform⟩

theorem collected_settles :
    @Settles types Closure fun _ record => record.2.Collected := by
  intro t r key futures done
  obtain ⟨transform, consumers, same, -, -, emptied⟩ := r.collectAllFutures_spec key
  rw [same]
  exact ⟨rfl, (emptied futures done).1⟩

theorem Collected.performAll (collected : db.Collected) (operations : List (Operation types)) :
    (operations.foldl Database.perform db).Collected :=
  (evolves_performAll operations).stable collected_stable collected

end Database

theorem AimDbBuilder.build_collected {b : AimDbBuilder types Closure} {keyOrder : KeyOrder}
    {db : Database types Closure} {futures : List Closure}
    (built : b.build keyOrder = some (.ok (db, futures))) : db.Collected :=
  build_settles built Database.collected_stable Database.collected_settles

namespace Database

def contents (db : Database types Closure) (key : String) :
    Option ((t : types.Ty) × Option (List (types.Value t))) :=
  (db.find key).map fun record => ⟨record.1, record.2.buffer⟩

/-- A write to a record that is denied and pushes nothing. -/
structure Refused {Denial : Type} (isDenied : Denial → Prop) (db : Database types Closure)
    (key : String) (outcome : Database types Closure × Except Denial Unit) : Prop where
  denied : ∃ e, outcome.2 = .error e ∧ isDenied e
  unchanged : outcome.1.contents key = db.contents key

def PermissionDenied (e : DbError) : Prop := ∃ text, e = .permissionDenied text

/-- Whether a record refuses the writes of the application and of the wire. -/
structure NoOverride (db : Database types Closure) (key : String) : Prop where
  fromJson : ∀ jsonValue, db.Refused PermissionDenied key (db.setRecordFromJson key jsonValue)
  fromJsonBytes : ∀ bytes, db.Refused PermissionDenied key (db.setRecordFromJsonBytes key bytes)
  recordSet : ∀ policy params value, strField params "name" = some key →
    params.get "value" = some value → db.Refused (· = .denied) key (db.recordSet policy params)
  write : ∀ policy parsed, db.Refused (· = .denied) key (db.write policy key parsed)

structure OnlyPolicyRefuses (db : Database types Closure) (key : String) : Prop where
  fromJson : ∀ jsonValue, ¬ db.Refused PermissionDenied key (db.setRecordFromJson key jsonValue)
  fromJsonBytes : ∀ bytes,
    ¬ db.Refused PermissionDenied key (db.setRecordFromJsonBytes key bytes)
  recordSet : ∀ policy params value, strField params "name" = some key →
    params.get "value" = some value →
    (db.Refused (· = .denied) key (db.recordSet policy params) ↔
      ensureWritable policy key = .error .denied)
  write : ∀ policy parsed, db.Refused (· = .denied) key (db.write policy key parsed) ↔
    ensureWritable policy key = .error .denied

variable {db : Database types Closure}

theorem Collected.onRecord_ne (collected : db.Collected) {key text : String} {Result : Type}
    {run : ∀ t, TypedRecord types Closure t →
      TypedRecord types Closure t × Except DbError Result}
    (passes : ∀ t r, r.Collected → (run t r).2 ≠ .error (.permissionDenied text)) :
    (db.onRecord key run).2 ≠ .error (.permissionDenied text) := by
  unfold Database.onRecord
  cases found : db.find key with
  | none => exact fun same => by cases same
  | some record => exact passes _ _ (collected.find found)

theorem Collected.setRecordFromJson_ne (collected : db.Collected) (key text : String)
    (jsonValue : Json.Value) :
    (db.setRecordFromJson key jsonValue).2 ≠ .error (.permissionDenied text) :=
  collected.onRecord_ne fun _ _ held => held.setFrom_ne _ text

theorem mapDbErr_eq_denied {e : DbError} (denied : mapDbErr e = .denied) : PermissionDenied e := by
  cases e with
  | permissionDenied text => exact ⟨text, rfl⟩
  | _ => cases denied

theorem Collected.remoteWrite_refused_iff (collected : db.Collected) (policy : SecurityPolicy)
    (key : String) (value : Json.Value) :
    db.Refused (· = .denied) key (db.remoteWrite policy key value) ↔
      ensureWritable policy key = .error .denied := by
  unfold Database.remoteWrite
  cases permitted : ensureWritable policy key with
  | error e =>
      constructor
      · rintro ⟨⟨_, same, rfl⟩, _⟩
        exact same
      · intro same
        exact ⟨⟨_, same, rfl⟩, rfl⟩
  | ok =>
      have accepted := collected.setRecordFromJson_ne key
      refine ⟨fun refused => ?_, fun same => by cases same⟩
      obtain ⟨_, same, rfl⟩ := refused.denied
      dsimp only at same
      cases wrote : (db.setRecordFromJson key value).2 with
      | ok =>
          rw [wrote] at same
          cases same
      | error e =>
          rw [wrote] at same
          obtain ⟨text, rfl⟩ := mapDbErr_eq_denied (Except.error.inj same)
          exact absurd wrote (accepted text value)

theorem Collected.onlyPolicyRefuses (collected : db.Collected) (key : String) :
    db.OnlyPolicyRefuses key where
  fromJson := by
    rintro jsonValue ⟨⟨_, same, text, rfl⟩, _⟩
    exact collected.setRecordFromJson_ne key text jsonValue same
  fromJsonBytes := by
    rintro bytes ⟨⟨_, same, text, rfl⟩, _⟩
    exact collected.onRecord_ne (fun _ _ held => held.setFrom_ne _ text) same
  recordSet := by
    intro policy params value named valued
    unfold Database.recordSet
    rw [named]
    dsimp only
    rw [valued]
    exact collected.remoteWrite_refused_iff policy key value
  write := fun policy parsed => collected.remoteWrite_refused_iff policy key _

end Database

/-- A record with a source or a transform refuses remote writes until its database is
built, and from then on, whatever happens to the database, it refuses nothing of its own. -/
theorem ownedRecord_onlyPolicyRefuses {b : AimDbBuilder types Closure}
    {keyOrder : AimDbBuilder.KeyOrder} {db : Database types Closure} {futures : List Closure}
    (built : b.build keyOrder = some (.ok (db, futures)))
    (operations : List (Database.Operation types)) :
    ∀ entry ∈ b.records, entry.2.2.hasProducer || entry.2.2.hasTransform →
      (∃ text, entry.2.2.remoteWriteCodec = .error (.permissionDenied text)) ∧
        (operations.foldl Database.perform db).OnlyPolicyRefuses entry.1 := by
  intro entry _ owned
  have collected := (AimDbBuilder.build_collected built).performAll operations
  exact ⟨TypedRecord.remoteWriteCodec_of_owned owned, collected.onlyPolicyRefuses entry.1⟩

def flags : Types where
  Ty := Unit
  decEq := inferInstance
  Value := fun _ => Bool
  typeName := fun _ => "bool"

def flagCodec : JsonCodec Bool where
  decode
    | .bool flag => some flag
    | _ => none
  decodeSlice bytes :=
    if bytes = "true".toUTF8.toList then some true
    else if bytes = "false".toUTF8.toList then some false
    else none

/-- A flag that the application produces, open to remote access. -/
def pump : AimDbBuilder flags Unit :=
  AimDbBuilder.new.runtime.configure "pump" ()
    [.source (), .bufferRaw [], .withRemoteAccess flagCodec]

def asListed : AimDbBuilder.KeyOrder := ⟨id, fun _ => .refl _⟩

def pumpDatabase (pushed : List Bool) : Database flags Unit :=
  ⟨[("pump", ⟨(),
      { buffer := some pushed, hasClock := true, remoteCodec := some flagCodec }⟩)],
    ⟨pump.records.map AimDbBuilder.graphNode,
      (pump.records.map AimDbBuilder.graphNode).flatMap DependencyGraph.nodeEdges, ["pump"]⟩⟩

theorem pump_build : pump.build asListed = some (.ok (pumpDatabase [], [()])) := rfl

/-- The source of the pump is overridden by a call and over the wire. -/
theorem pump_overridden :
    pump.build asListed = some (.ok (pumpDatabase [], [()])) ∧
      (∀ entry ∈ pump.records, entry.1 = "pump" ∧ entry.2.2.hasProducer) ∧
      (pumpDatabase []).setRecordFromJson "pump" (.bool true) = (pumpDatabase [true], .ok ()) ∧
      (pumpDatabase []).write (.readWrite ["pump"]) "pump" (some (.bool true)) =
        (pumpDatabase [true], .ok ()) ∧
      ¬ (pumpDatabase []).NoOverride "pump" := by
  have accepted : (pumpDatabase []).setRecordFromJson "pump" (.bool true) =
      (pumpDatabase [true], .ok ()) := rfl
  refine ⟨pump_build, ?_, accepted, rfl, fun guarded => ?_⟩
  · intro entry mem
    rw [List.mem_singleton.mp mem]
    exact ⟨rfl, rfl⟩
  · obtain ⟨e, same, _⟩ := (guarded.fromJson (.bool true)).denied
    rw [accepted] at same
    cases same

theorem ownedRecord_onlyPolicyRefuses_pump :
    (pumpDatabase []).OnlyPolicyRefuses "pump" :=
  (ownedRecord_onlyPolicyRefuses pump_build [] _ (List.mem_singleton.mpr rfl) rfl).2

end AimDb
