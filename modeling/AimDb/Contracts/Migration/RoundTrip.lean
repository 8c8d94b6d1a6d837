import AimDb.Contracts.Migration
import AimDb.Json.Scan

/-!
# What a migration chain promises

A chain that passes its assertions applies the steps from the version of the
payload on, or down to the version asked for, and no others; if each step's way
down undoes its way up, a downgraded value comes back.
-/

namespace AimDb.Contracts.Migration

open Json

variable {Current : Type}

structure MigrationChain.Undone (chain : MigrationChain Current) : Prop where
  undoes : chain.steps.Every fun step _ => ∀ older newer, step.up older = .ok newer →
    step.down newer = .ok older
  carries : chain.steps.Every fun step serde => ∀ older bytes, serde.toVec older = some bytes →
    chain.probe bytes = .ok step.fromVersion
  carriesCurrent : ∀ current bytes, chain.current.toVec current = some bytes →
    chain.probe bytes = .ok chain.version

structure MigrationChain.Reversible (chain : MigrationChain Current) : Prop extends
    chain.Undone where
  readsBack : chain.steps.Every fun _ serde => ∀ older bytes, serde.toVec older = some bytes →
    serde.fromSlice bytes = some older
  readsBackCurrent : ∀ current bytes, chain.current.toVec current = some bytes →
    chain.current.fromSlice bytes = some current

/-- The generated dispatch composes the right steps. -/
structure MigrationChain.Dispatches (chain : MigrationChain Current) : Prop where
  counts : chain.version.toNat = chain.steps.length + 1
  everyVersion : ∀ version, 1 ≤ version → version < chain.version →
    ∃ (A : Type) (tail : Steps Current A), Tail chain.steps tail ∧ tail.fromVersion = version
  upgrades : ∀ {A : Type} (tail : Steps Current A), Tail chain.steps tail → ∀ data older,
    chain.probe data = .ok tail.fromVersion → tail.serde.fromSlice data = some older →
    Climbs tail older (chain.migrateFromBytes data)
  reads : ∀ data current, chain.probe data = .ok chain.version →
    chain.current.fromSlice data = some current →
    chain.migrateFromBytes data = ⟨[], .ok current⟩
  downgrades : ∀ {A : Type} (tail : Steps Current A), Tail chain.steps tail → ∀ current,
    ∃ run, Descends current tail run ∧ chain.migrateToVersion current tail.fromVersion =
      run.andThen fun older => .ofOption
        (.serializationFailed ("failed to serialize as " ++ tail.serde.name))
          (tail.serde.toVec older)
  writes : ∀ current, chain.migrateToVersion current chain.version =
    .ofOption (.serializationFailed ("failed to serialize as " ++ chain.current.name))
      (chain.current.toVec current)
  tooOld : (∀ data, chain.probe data = .ok 0 →
      chain.migrateFromBytes data = .fail (.versionTooOld 0 minVersion)) ∧
    ∀ current, chain.migrateToVersion current 0 = .fail (.versionTooOld 0 minVersion)
  tooNew : ∀ version, chain.version < version →
    (∀ data, chain.probe data = .ok version →
      chain.migrateFromBytes data = .fail (.versionTooNew version chain.version)) ∧
    ∀ current, chain.migrateToVersion current version =
      .fail (.versionTooNew version chain.version)
  returns : (∀ data, (chain.migrateFromBytes data).result ≠ .error .unreachable) ∧
    ∀ current version, (chain.migrateToVersion current version).result ≠ .error .unreachable
  roundTrip : chain.Reversible →
    ∀ {A : Type} (tail : Steps Current A), Tail chain.steps tail →
    ∀ older calls current bytes, Climbs tail older ⟨calls, .ok current⟩ →
      tail.serde.toVec older = some bytes →
      (chain.migrateToVersion current tail.fromVersion).result = .ok bytes ∧
        (chain.migrateFromBytes bytes).result = .ok current
  roundTripCurrent : chain.Reversible →
    ∀ current bytes, chain.current.toVec current = some bytes →
    (chain.migrateToVersion current chain.version).result = .ok bytes ∧
      (chain.migrateFromBytes bytes).result = .ok current

theorem Climbs.eq_up {Older : Type} {steps : Steps Current Older} {older : Older}
    {run : Run Current} (climbs : Climbs steps older run) : run = steps.up older := by
  induction climbs with
  | last => rfl
  | fails failed =>
      rw [Steps.up, failed]
      rfl
  | climbs stepped _ inductionHypothesis =>
      rw [inductionHypothesis, Steps.up, stepped]
      rfl

theorem result_andThen {α β : Type} {first : Run α} {a : α} (ok : first.result = .ok a)
    (next : α → Run β) : (first.andThen next).result = (next a).result := by
  rw [Run.andThen, ok]

theorem returns_andThen {α β : Type} {first : Run α} {next : α → Run β}
    (returns : first.result ≠ .error .unreachable)
    (further : ∀ a, (next a).result ≠ .error .unreachable) :
    (first.andThen next).result ≠ .error .unreachable := by
  rw [Run.andThen]
  cases ended : first.result with
  | ok a => exact further a
  | error failure =>
      rw [ended] at returns
      rintro same
      exact returns (by cases same; rfl)

theorem returns_ofOption {α : Type} (e : MigrationError) (value : Option α) :
    (Run.ofOption e value).result ≠ .error .unreachable := by
  cases value <;> simp [Run.ofOption, Run.fail]

theorem returns_apply {α : Type} (call : Call) (result : Except MigrationError α) :
    (Run.apply call result).result ≠ .error .unreachable := by
  cases result <;> simp [Run.apply, Run.ofResult]

theorem Steps.returns_up {Older : Type} (steps : Steps Current Older) (older : Older) :
    (steps.up older).result ≠ .error .unreachable := by
  induction steps with
  | last step serde => exact returns_apply _ _
  | cons step serde rest inductionHypothesis =>
      exact returns_andThen (returns_apply _ _) inductionHypothesis

theorem Steps.returns_down {Older : Type} (steps : Steps Current Older) (current : Current) :
    (steps.down current).result ≠ .error .unreachable := by
  induction steps with
  | last step serde => exact returns_apply _ _
  | cons step serde rest inductionHypothesis =>
      exact returns_andThen inductionHypothesis fun newer => returns_apply _ _

theorem Steps.down_up {Older : Type} {steps : Steps Current Older}
    (undoes : steps.Every fun step _ => ∀ older newer, step.up older = .ok newer →
      step.down newer = .ok older) {older : Older} {current : Current}
    (climbed : (steps.up older).result = .ok current) :
    (steps.down current).result = .ok older := by
  induction steps with
  | last step serde =>
      change Run.ofResult (step.up older) = .ok current at climbed
      change Run.ofResult (step.down current) = .ok older
      cases stepped : step.up older with
      | error e =>
          rw [stepped] at climbed
          cases climbed
      | ok newer =>
          rw [stepped] at climbed
          cases climbed
          rw [undoes older current stepped]
          rfl
  | cons step serde rest inductionHypothesis =>
      rw [up, Run.andThen, Run.apply] at climbed
      cases stepped : step.up older with
      | error e =>
          rw [stepped] at climbed
          cases climbed
      | ok newer =>
          rw [stepped] at climbed
          rw [down, result_andThen (inductionHypothesis undoes.2 climbed), Run.apply,
            undoes.1 older newer stepped]
          rfl

namespace MigrationChain

variable {chain : MigrationChain Current}

theorem Asserted.counted (asserted : chain.Asserted) : Counted chain.steps :=
  ⟨asserted.increments, asserted.sequential⟩

theorem Asserted.counts (asserted : chain.Asserted) :
    chain.version.toNat = chain.steps.length + 1 := by
  rw [← asserted.last, asserted.counted.toVersion_eq, asserted.first]
  exact Nat.add_comm _ _

theorem Asserted.below (asserted : chain.Asserted) {A : Type} {tail : Steps Current A}
    (isTail : Tail chain.steps tail) :
    1 ≤ tail.fromVersion ∧ tail.fromVersion < chain.version := by
  have counted := asserted.counted
  have above := counted.le_tail isTail
  have ends := (counted.tail isTail).toVersion_eq
  have positive := tail.length_pos
  rw [asserted.first] at above
  rw [isTail.toVersion_eq, asserted.last] at ends
  rw [UInt32.le_iff_toNat_le, UInt32.lt_iff_toNat_lt]
  exact ⟨above, by omega⟩

theorem Asserted.arms (asserted : chain.Asserted) {A : Type} {tail : Steps Current A}
    (isTail : Tail chain.steps tail) :
    (∀ data, chain.steps.fromArms data tail.fromVersion 1 = some (tail.fromArm data)) ∧
      ∀ current, chain.steps.toArms current tail.fromVersion 1 = some (tail.toArm current) := by
  have arms := arms_of_tail asserted.counted isTail
  rw [asserted.first] at arms
  exact arms

theorem Asserted.noArms (asserted : chain.Asserted) {version : UInt32}
    (outside : version < 1 ∨ chain.version ≤ version) :
    (∀ data, chain.steps.fromArms data version 1 = none) ∧
      ∀ current, chain.steps.toArms current version 1 = none := by
  rw [← asserted.first, ← asserted.last] at outside
  have arms := arms_outside asserted.counted outside
  rw [asserted.first] at arms
  exact arms

theorem Asserted.migrateFromBytes_tail (asserted : chain.Asserted) {A : Type}
    {tail : Steps Current A} (isTail : Tail chain.steps tail) {data : Bytes}
    (probed : chain.probe data = .ok tail.fromVersion) :
    chain.migrateFromBytes data = tail.fromArm data := by
  have notNewer : ¬ tail.fromVersion > chain.version := UInt32.lt_asymm (asserted.below isTail).2
  rw [migrateFromBytes, probed]
  simp only [if_neg notNewer, (asserted.arms isTail).1]

theorem Asserted.migrateToVersion_tail (asserted : chain.Asserted) {A : Type}
    {tail : Steps Current A} (isTail : Tail chain.steps tail) (current : Current) :
    chain.migrateToVersion current tail.fromVersion = tail.toArm current := by
  obtain ⟨least, below⟩ := asserted.below isTail
  have notOlder : ¬ tail.fromVersion < minVersion := UInt32.not_lt.mpr least
  rw [migrateToVersion, if_neg notOlder, if_neg (UInt32.lt_asymm below)]
  simp only [(asserted.arms isTail).2]

theorem Asserted.migrateFromBytes_current (asserted : chain.Asserted) {data : Bytes}
    (probed : chain.probe data = .ok chain.version) :
    chain.migrateFromBytes data =
      .ofOption (.deserializationFailed ("failed to parse as " ++ chain.current.name))
        (chain.current.fromSlice data) := by
  rw [migrateFromBytes, probed]
  simp only [gt_iff_lt, UInt32.lt_irrefl, if_false, if_true,
    (asserted.noArms (.inr (UInt32.le_refl _))).1]

theorem Asserted.migrateToVersion_current (asserted : chain.Asserted) (current : Current) :
    chain.migrateToVersion current chain.version =
      .ofOption (.serializationFailed ("failed to serialize as " ++ chain.current.name))
        (chain.current.toVec current) := by
  have counts := asserted.counts
  have notOlder : ¬ chain.version < minVersion := by
    rw [UInt32.lt_iff_toNat_lt]
    change ¬ chain.version.toNat < 1
    omega
  rw [migrateToVersion, if_neg notOlder]
  simp only [gt_iff_lt, UInt32.lt_irrefl, if_false, if_true,
    (asserted.noArms (.inr (UInt32.le_refl _))).2]

theorem Asserted.fromBytes_tooOld (asserted : chain.Asserted) {data : Bytes}
    (probed : chain.probe data = .ok 0) :
    chain.migrateFromBytes data = .fail (.versionTooOld 0 minVersion) := by
  have counts := asserted.counts
  have notNewer : ¬ (0 : UInt32) > chain.version := UInt32.not_lt.mpr UInt32.zero_le
  have notCurrent : (0 : UInt32) ≠ chain.version := by
    intro same
    rw [← same] at counts
    cases counts
  have noArm := (asserted.noArms (.inl (by decide : (0 : UInt32) < 1))).1 data
  rw [migrateFromBytes, probed]
  simp only [if_neg notNewer, noArm, if_neg notCurrent]

theorem fromBytes_tooNew {version : UInt32} (newer : chain.version < version) {data : Bytes}
    (probed : chain.probe data = .ok version) :
    chain.migrateFromBytes data = .fail (.versionTooNew version chain.version) := by
  rw [migrateFromBytes, probed]
  simp only [gt_iff_lt, if_pos newer]

theorem Asserted.toVersion_tooNew (asserted : chain.Asserted) {version : UInt32}
    (newer : chain.version < version) (current : Current) :
    chain.migrateToVersion current version = .fail (.versionTooNew version chain.version) := by
  have counts := asserted.counts
  have notOlder : ¬ version < minVersion := by
    rw [UInt32.lt_iff_toNat_lt] at newer ⊢
    change ¬ version.toNat < 1
    omega
  rw [migrateToVersion, if_neg notOlder, if_pos newer]

theorem Asserted.version_cases (asserted : chain.Asserted) (version : UInt32) :
    version = 0 ∨
      (∃ (A : Type) (tail : Steps Current A), Tail chain.steps tail ∧
        tail.fromVersion = version) ∨
      version = chain.version ∨ chain.version < version := by
  by_cases zero : version = 0
  · exact .inl zero
  have least : chain.steps.fromVersion ≤ version := by
    rw [asserted.first, UInt32.le_iff_toNat_le]
    have positive : version.toNat ≠ 0 := fun same => zero (UInt32.toNat_inj.mp same)
    change 1 ≤ version.toNat
    omega
  by_cases current : version = chain.version
  · exact .inr (.inr (.inl current))
  rcases UInt32.lt_or_lt_of_ne current with below | newer
  · rw [← asserted.last] at below
    exact .inr (.inl (exists_tail asserted.counted least below))
  · exact .inr (.inr (.inr newer))

theorem Asserted.returns_fromBytes (asserted : chain.Asserted) (data : Bytes) :
    (chain.migrateFromBytes data).result ≠ .error .unreachable := by
  cases probed : chain.probe data with
  | error e => cases e <;> simp [migrateFromBytes, probed, Run.fail]
  | ok version =>
      rcases asserted.version_cases version with rfl | ⟨A, tail, isTail, rfl⟩ | rfl | newer
      · rw [asserted.fromBytes_tooOld probed]
        simp [Run.fail]
      · rw [asserted.migrateFromBytes_tail isTail probed]
        exact returns_andThen (returns_ofOption _ _) tail.returns_up
      · rw [asserted.migrateFromBytes_current probed]
        exact returns_ofOption _ _
      · rw [fromBytes_tooNew newer probed]
        simp [Run.fail]

theorem Asserted.returns_toVersion (asserted : chain.Asserted) (current : Current)
    (version : UInt32) :
    (chain.migrateToVersion current version).result ≠ .error .unreachable := by
  rcases asserted.version_cases version with rfl | ⟨A, tail, isTail, rfl⟩ | rfl | newer
  · simp [migrateToVersion, minVersion, Run.fail]
  · rw [asserted.migrateToVersion_tail isTail]
    exact returns_andThen (tail.returns_down current) fun older => returns_ofOption _ _
  · rw [asserted.migrateToVersion_current]
    exact returns_ofOption _ _
  · rw [asserted.toVersion_tooNew newer]
    simp [Run.fail]

theorem Reversible.here (reversible : chain.Reversible) {A : Type} {tail : Steps Current A}
    (isTail : Tail chain.steps tail) {older : A} {bytes : Bytes}
    (written : tail.serde.toVec older = some bytes) :
    chain.probe bytes = .ok tail.fromVersion ∧ tail.serde.fromSlice bytes = some older := by
  have carries := reversible.carries.head isTail
  have readsBack := reversible.readsBack.head isTail
  cases tail with
  | last step serde => exact ⟨carries older bytes written, readsBack older bytes written⟩
  | cons step serde rest =>
      exact ⟨carries.1 older bytes written, readsBack.1 older bytes written⟩

end MigrationChain

/-- A chain that passes its assertions dispatches. -/
theorem dispatches_of_asserted (chain : MigrationChain Current) (asserted : chain.Asserted) :
    chain.Dispatches where
  counts := asserted.counts
  everyVersion version least below := by
    apply exists_tail asserted.counted
    · rw [asserted.first]
      exact least
    · rw [asserted.last]
      exact below
  upgrades tail isTail data older probed parsed := by
    rw [asserted.migrateFromBytes_tail isTail probed, Steps.fromArm, parsed]
    exact tail.up_climbs older
  reads data current probed parsed := by
    rw [asserted.migrateFromBytes_current probed, parsed]
    rfl
  downgrades tail isTail current :=
    ⟨tail.down current, tail.down_descends current,
      asserted.migrateToVersion_tail isTail current⟩
  writes := asserted.migrateToVersion_current
  tooOld := ⟨fun _ probed => asserted.fromBytes_tooOld probed, fun _ => rfl⟩
  tooNew _ newer := ⟨fun _ probed => MigrationChain.fromBytes_tooNew newer probed,
    asserted.toVersion_tooNew newer⟩
  returns := ⟨asserted.returns_fromBytes, asserted.returns_toVersion⟩
  roundTrip reversible := by
    intro A tail isTail older calls current bytes climbs written
    have climbed : (tail.up older).result = .ok current := by rw [← climbs.eq_up]
    have descended := Steps.down_up (reversible.undoes.head isTail) climbed
    obtain ⟨carried, readBack⟩ := reversible.here isTail written
    constructor
    · rw [asserted.migrateToVersion_tail isTail, Steps.toArm, result_andThen descended, written]
      rfl
    · rw [asserted.migrateFromBytes_tail isTail carried, Steps.fromArm, readBack]
      exact climbed
  roundTripCurrent reversible current bytes written := by
    rw [asserted.migrateToVersion_current, written,
      asserted.migrateFromBytes_current (reversible.carriesCurrent current bytes written),
      reversible.readsBackCurrent current bytes written]
    exact ⟨rfl, rfl⟩

/-- A `u32` as JSON has it. -/
def readU32 (bytes : Bytes) : Option UInt32 :=
  if bytes ≠ [] ∧ bytes.all (fun b => decide (0x30 ≤ b ∧ b ≤ 0x39)) ∧
    decimalValue bytes < 2 ^ 32 then
    some (UInt32.ofNat (decimalValue bytes))
  else none

theorem readU32_decimal (n : UInt32) : readU32 (decimal n.toNat) = some n := by
  have digits := decimal_digits n.toNat
  have fits : decimal n.toNat ≠ [] ∧
      (decimal n.toNat).all (fun b => decide (0x30 ≤ b ∧ b ≤ 0x39)) ∧
      decimalValue (decimal n.toNat) < 2 ^ 32 := by
    refine ⟨digits.1, ?_, ?_⟩
    · rw [List.all_eq_true]
      exact fun b isDigit => decide_eq_true (digits.2 b isDigit)
    · rw [decimalValue_decimal]
      exact n.toNat_lt
  rw [readU32, if_pos fits, decimalValue_decimal, UInt32.ofNat_toNat]

structure Count where
  value : UInt32
  deriving DecidableEq, Repr

def countMembers (field : String) (version : UInt32) (count : Count) : List (String × Bytes) :=
  [("schema_version", decimal version.toNat), (field, decimal count.value.toNat)]

def countSerde (name field : String) (version : UInt32) : Serde Count where
  name := name
  fromSlice bytes := do
    let members ← readObject bytes
    let _version ← (members.lookup "schema_version").bind readU32
    let value ← (members.lookup field).bind readU32
    return ⟨value⟩
  toVec count := some (objectText (countMembers field version count))

def probeVersion (bytes : Bytes) : Except ProbeError UInt32 :=
  match readObject bytes with
  | none => .error .other
  | some members =>
      match (members.lookup "schema_version").bind readU32 with
      | none => .error .data
      | some version => .ok version

def renameStep (fromVersion toVersion : UInt32) : MigrationStep Count Count where
  fromVersion := fromVersion
  toVersion := toVersion
  up := .ok
  down := .ok

def countChain : MigrationChain Count where
  First := Count
  steps := .cons (renameStep 1 2) (countSerde "CountV1" "n" 1)
    (.last (renameStep 2 3) (countSerde "CountV2" "count" 2))
  version := 3
  current := countSerde "Count" "total" 3
  probe := probeVersion

theorem readObject_count {field : String} (plain : IsPlain field) (version : UInt32)
    (count : Count) :
    readObject (objectText (countMembers field version count)) =
      some (countMembers field version count) := by
  apply readObject_objectText
  intro m isMember
  rcases List.mem_pair.mp isMember with rfl | rfl
  · exact ⟨(by decide +kernel : IsPlain "schema_version"), decimal_value _⟩
  · exact ⟨plain, decimal_value _⟩

theorem count_readsBack {name field : String} {version : UInt32} (plain : IsPlain field)
    (other : field ≠ "schema_version") {count : Count} {bytes : Bytes}
    (written : (countSerde name field version).toVec count = some bytes) :
    probeVersion bytes = .ok version ∧
        (countSerde name field version).fromSlice bytes = some count := by
  obtain rfl := Option.some.inj written
  have read := readObject_count plain version count
  have ownVersion : (countMembers field version count).lookup "schema_version" =
      some (decimal version.toNat) := rfl
  have ownValue : (countMembers field version count).lookup field =
      some (decimal count.value.toNat) := by
    simp [countMembers, List.lookup_cons, beq_false_of_ne other]
  constructor
  · simp only [probeVersion, read, ownVersion, Option.bind_some, readU32_decimal]
  · simp only [countSerde, read, ownVersion, ownValue, Option.bind_eq_bind, Option.bind_some,
      readU32_decimal, Option.pure_def]

theorem dispatches_of_asserted_countChain : countChain.Dispatches ∧ countChain.Reversible := by
  refine ⟨dispatches_of_asserted countChain
    ⟨⟨rfl, rfl⟩, ⟨rfl, trivial⟩, rfl, rfl⟩, ?_⟩
  constructor
  · constructor
    · exact ⟨fun _ _ up => by cases up; rfl, fun _ _ up => by cases up; rfl⟩
    · exact ⟨fun _ _ written => (count_readsBack (by decide +kernel) (by decide) written).1,
        fun _ _ written => (count_readsBack (by decide +kernel) (by decide) written).1⟩
    · exact fun _ _ written => (count_readsBack (by decide +kernel) (by decide) written).1
  · exact ⟨fun _ _ written => (count_readsBack (by decide +kernel) (by decide) written).2,
      fun _ _ written => (count_readsBack (by decide +kernel) (by decide) written).2⟩
  · exact fun _ _ written => (count_readsBack (by decide +kernel) (by decide) written).2

/-- A field of type `f64`, by its bits. -/
structure Level where
  bits : UInt64
  deriving DecidableEq, Repr

def levelText (version : UInt32) : Bytes :=
  utf8 (if version = 1 then "\x7b\"schema_version\":1,\"level\":51.248178375505404\x7d"
    else "\x7b\"schema_version\":2,\"level\":51.248178375505404\x7d")

/-- serde_json writes a number with the digits that tell it apart, and reads it by a division that
rounds a second time, unless its feature `float_roundtrip` is on. -/
def levelSerde (name : String) (version : UInt32) : Serde Level where
  name := name
  fromSlice bytes := if bytes = levelText version then some ⟨0x40499fc44f1b2f61⟩ else none
  toVec level := if level = ⟨0x40499fc44f1b2f60⟩ then some (levelText version) else none

def probeLevel (bytes : Bytes) : Except ProbeError UInt32 :=
  if bytes = levelText 1 then .ok 1 else if bytes = levelText 2 then .ok 2 else .error .other

def levelChain : MigrationChain Level where
  First := Level
  steps := .last ⟨1, 2, .ok, .ok⟩ (levelSerde "LevelV1" 1)
  version := 2
  current := levelSerde "Level" 2
  probe := probeLevel

theorem level_carries {name : String} {version : UInt32} (known : version = 1 ∨ version = 2)
    {level : Level} {bytes : Bytes} (written : (levelSerde name version).toVec level = some bytes) :
    probeLevel bytes = .ok version := by
  have text : bytes = levelText version := by
    simp only [levelSerde] at written
    split at written
    · exact (Option.some.inj written).symm
    · cases written
  rcases known with rfl | rfl
  · rw [probeLevel, if_pos text]
  · have other : bytes ≠ levelText 1 := by
      rw [text]
      decide
    rw [probeLevel, if_neg other, if_pos text]

/-- A value that was upgraded does not come back, though the step is undone. -/
theorem level_rounds : levelChain.Asserted ∧ levelChain.Undone ∧
    Climbs levelChain.steps (⟨0x40499fc44f1b2f60⟩ : Level)
      ⟨[.up 1], .ok ⟨0x40499fc44f1b2f60⟩⟩ ∧
    (levelChain.migrateToVersion ⟨0x40499fc44f1b2f60⟩ 1).result = .ok (levelText 1) ∧
    (levelChain.migrateFromBytes (levelText 1)).result = .ok ⟨0x40499fc44f1b2f61⟩ := by
  refine ⟨⟨rfl, trivial, rfl, rfl⟩, ⟨fun _ _ up => by cases up; rfl, ?_, ?_⟩,
    ?_, ?_, ?_⟩
  · exact fun _ _ written => level_carries (.inl rfl) written
  · exact fun _ _ written => level_carries (.inr rfl) written
  · exact .last ⟨1, 2, .ok, .ok⟩ (levelSerde "LevelV1" 1) _
  · rfl
  · rfl

end AimDb.Contracts.Migration
