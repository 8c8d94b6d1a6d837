import AimDb.Json.Text

/-!
# Generated migration chains

`migration_chain!` turns a list of typed steps into two dispatches: upwards from
the version a payload carries, downwards to a version asked for. The step
functions, the types and their JSON come from the user of the macro.
-/

namespace AimDb.Contracts.Migration

open Json

inductive MigrationError where
  | versionTooNew (source current : UInt32)
  | versionTooOld (target minimum : UInt32)
  | deserializationFailed (message : String)
  | serializationFailed (message : String)
  | conversionFailed (message : String)
  | missingVersion
  deriving DecidableEq, Repr

structure MigrationStep (Older Newer : Type) where
  fromVersion : UInt32
  toVersion : UInt32
  up : Older → Except MigrationError Newer
  down : Newer → Except MigrationError Older

/-- A type's JSON, and the type as `stringify!` spells it. -/
structure Serde (A : Type) where
  name : String
  fromSlice : Bytes → Option A
  toVec : A → Option Bytes

/-- A step that was applied, by its `FROM_VERSION`. -/
inductive Call where
  | up (version : UInt32)
  | down (version : UInt32)
  deriving DecidableEq, Repr

/-- How a generated function ends without a value. -/
inductive Failure where
  | error (e : MigrationError)
  | unreachable
  deriving DecidableEq, Repr

/-- The steps applied, in order, and the result. -/
structure Run (α : Type) where
  calls : List Call
  result : Except Failure α

namespace Run

variable {α β : Type}

def fail (e : MigrationError) : Run α := ⟨[], .error (.error e)⟩

def ofResult : Except MigrationError α → Except Failure α
  | .ok a => .ok a
  | .error e => .error (.error e)

def apply (call : Call) (result : Except MigrationError α) : Run α :=
  ⟨[call], ofResult result⟩

/-- The `?` operator. -/
def andThen (first : Run α) (next : α → Run β) : Run β :=
  match first.result with
  | .ok a => ⟨first.calls ++ (next a).calls, (next a).result⟩
  | .error failure => ⟨first.calls, .error failure⟩

/-- `ok_or` of a parsed or serialized value. -/
def ofOption (e : MigrationError) : Option α → Run α
  | some a => ⟨[], .ok a⟩
  | none => fail e

end Run

/-- The steps of a chain, the oldest first, each with the JSON of its older type. -/
inductive Steps (Current : Type) : Type → Type 1
  | last {Older : Type} (step : MigrationStep Older Current) (older : Serde Older) :
      Steps Current Older
  | cons {Older Newer : Type} (step : MigrationStep Older Newer) (older : Serde Older)
      (rest : Steps Current Newer) : Steps Current Older

namespace Steps

variable {Current Older : Type}

/-- `FROM_VERSION` of the first step. -/
def fromVersion : Steps Current Older → UInt32
  | last step _ => step.fromVersion
  | cons step _ _ => step.fromVersion

/-- `TO_VERSION` of the last step. -/
def toVersion {Older : Type} : Steps Current Older → UInt32
  | last step _ => step.toVersion
  | cons _ _ rest => rest.toVersion

def length {Older : Type} : Steps Current Older → ℕ
  | last _ _ => 1
  | cons _ _ rest => rest.length + 1

def serde : Steps Current Older → Serde Older
  | last _ older => older
  | cons _ older _ => older

def Every (p : {A B : Type} → MigrationStep A B → Serde A → Prop) {Older : Type} :
    Steps Current Older → Prop
  | last step older => p step older
  | cons step older rest => p step older ∧ rest.Every p

def Adjacent {Older : Type} : Steps Current Older → Prop
  | last _ _ => True
  | cons step _ rest => step.toVersion = rest.fromVersion ∧ rest.Adjacent

/-- `__up_k`. -/
def up {Older : Type} : Steps Current Older → Older → Run Current
  | last step _, older => .apply (.up step.fromVersion) (step.up older)
  | cons step _ rest, older =>
      (Run.apply (.up step.fromVersion) (step.up older)).andThen fun newer => rest.up newer

/-- `__down_k`. -/
def down {Older : Type} : Steps Current Older → Current → Run Older
  | last step _, current => .apply (.down step.fromVersion) (step.down current)
  | cons step _ rest, current =>
      (rest.down current).andThen fun newer => .apply (.down step.fromVersion) (step.down newer)

/-- An arm of `migrate_from_bytes`. -/
def fromArm (steps : Steps Current Older) (data : Bytes) : Run Current :=
  (Run.ofOption (.deserializationFailed ("failed to parse as " ++ steps.serde.name))
    (steps.serde.fromSlice data)).andThen fun older => steps.up older

/-- An arm of `migrate_to_version`. -/
def toArm (steps : Steps Current Older) (current : Current) : Run Bytes :=
  (steps.down current).andThen fun older =>
    .ofOption (.serializationFailed ("failed to serialize as " ++ steps.serde.name))
      (steps.serde.toVec older)

/-- The arms of `migrate_from_bytes`, the first with the literal `k`. -/
def fromArms {Older : Type} (data : Bytes) (version : UInt32) :
    ℕ → Steps Current Older → Option (Run Current)
  | k, last step older =>
      if version = UInt32.ofNat k then some ((last step older).fromArm data) else none
  | k, cons step older rest =>
      if version = UInt32.ofNat k then some ((cons step older rest).fromArm data)
      else rest.fromArms data version (k + 1)

/-- The arms of `migrate_to_version`. -/
def toArms {Older : Type} (current : Current) (target : UInt32) :
    ℕ → Steps Current Older → Option (Run Bytes)
  | k, last step older =>
      if target = UInt32.ofNat k then some ((last step older).toArm current) else none
  | k, cons step older rest =>
      if target = UInt32.ofNat k then some ((cons step older rest).toArm current)
      else rest.toArms current target (k + 1)

end Steps

/-- What the version probe of `serde_json` fails with. -/
inductive ProbeError where
  /-- `is_data`: the JSON has no such version field. -/
  | data
  | other
  deriving DecidableEq, Repr

/-- The input of the macro, and what the crates around it provide. -/
structure MigrationChain (Current : Type) where
  First : Type
  steps : Steps Current First
  /-- `SchemaType::VERSION` of the current type. -/
  version : UInt32
  current : Serde Current
  probe : Bytes → Except ProbeError UInt32

def minVersion : UInt32 := 1

namespace MigrationChain

variable {Current : Type} (chain : MigrationChain Current)

/-- The generated assertions hold; the addition in them does not overflow in a
constant. -/
structure Asserted : Prop where
  increments : chain.steps.Every fun step _ => step.toVersion.toNat = step.fromVersion.toNat + 1
  sequential : chain.steps.Adjacent
  first : chain.steps.fromVersion = 1
  last : chain.steps.toVersion = chain.version

def migrateFromBytes (data : Bytes) : Run Current :=
  match chain.probe data with
  | .error .data => .fail .missingVersion
  | .error .other => .fail (.deserializationFailed "invalid JSON")
  | .ok version =>
      if version > chain.version then .fail (.versionTooNew version chain.version)
      else
        match chain.steps.fromArms data version 1 with
        | some run => run
        | none =>
            if version = chain.version then
              .ofOption (.deserializationFailed ("failed to parse as " ++ chain.current.name))
                (chain.current.fromSlice data)
            else .fail (.versionTooOld version minVersion)

def migrateToVersion (self : Current) (targetVersion : UInt32) : Run Bytes :=
  if targetVersion < minVersion then .fail (.versionTooOld targetVersion minVersion)
  else if targetVersion > chain.version then .fail (.versionTooNew targetVersion chain.version)
  else
    match chain.steps.toArms self targetVersion 1 with
    | some run => run
    | none =>
        if targetVersion = chain.version then
          .ofOption (.serializationFailed ("failed to serialize as " ++ chain.current.name))
            (chain.current.toVec self)
        else ⟨[], .error .unreachable⟩

end MigrationChain

variable {Current : Type}

/-- What it is to go up from a value: step by step, until one fails. -/
inductive Climbs : {Older : Type} → Steps Current Older → Older → Run Current → Prop
  | last {Older : Type} (step : MigrationStep Older Current) (serde : Serde Older) (older : Older) :
      Climbs (.last step serde) older (.apply (.up step.fromVersion) (step.up older))
  | fails {Older Newer : Type} {step : MigrationStep Older Newer} {serde : Serde Older}
      {rest : Steps Current Newer} {older : Older} {e : MigrationError}
      (failed : step.up older = .error e) :
      Climbs (.cons step serde rest) older ⟨[.up step.fromVersion], .error (.error e)⟩
  | climbs {Older Newer : Type} {step : MigrationStep Older Newer} {serde : Serde Older}
      {rest : Steps Current Newer} {older : Older} {newer : Newer} {run : Run Current}
      (stepped : step.up older = .ok newer) (further : Climbs rest newer run) :
      Climbs (.cons step serde rest) older ⟨.up step.fromVersion :: run.calls, run.result⟩

/-- What it is to go down to the type the steps start from: the last step first. -/
inductive Descends (current : Current) :
    {Older : Type} → Steps Current Older → Run Older → Prop
  | last {Older : Type} (step : MigrationStep Older Current) (serde : Serde Older) :
      Descends current (.last step serde) (.apply (.down step.fromVersion) (step.down current))
  | fails {Older Newer : Type} {step : MigrationStep Older Newer} {serde : Serde Older}
      {rest : Steps Current Newer} {calls : List Call} {failure : Failure}
      (failed : Descends current rest ⟨calls, .error failure⟩) :
      Descends current (.cons step serde rest) ⟨calls, .error failure⟩
  | descends {Older Newer : Type} {step : MigrationStep Older Newer} {serde : Serde Older}
      {rest : Steps Current Newer} {calls : List Call} {newer : Newer}
      (descended : Descends current rest ⟨calls, .ok newer⟩) :
      Descends current (.cons step serde rest)
        ⟨calls ++ [.down step.fromVersion], Run.ofResult (step.down newer)⟩

theorem Steps.up_climbs {Older : Type} (steps : Steps Current Older) (older : Older) :
    Climbs steps older (steps.up older) := by
  induction steps with
  | last step serde => exact .last step serde older
  | cons step serde rest inductionHypothesis =>
      rw [up, Run.andThen, Run.apply]
      cases stepped : step.up older with
      | error e => exact .fails stepped
      | ok newer => exact .climbs stepped (inductionHypothesis newer)

theorem Steps.down_descends {Older : Type} (steps : Steps Current Older) (current : Current) :
    Descends current steps (steps.down current) := by
  induction steps with
  | last step serde => exact .last step serde
  | cons step serde rest inductionHypothesis =>
      rw [down]
      rcases below : rest.down current with ⟨calls, result⟩
      rw [below] at inductionHypothesis
      cases result with
      | error failure => exact .fails inductionHypothesis
      | ok newer => exact .descends inductionHypothesis

inductive Tail : {A B : Type} → Steps Current A → Steps Current B → Prop
  | self {A : Type} (steps : Steps Current A) : Tail steps steps
  | later {A B C : Type} {step : MigrationStep A B} {serde : Serde A} {rest : Steps Current B}
      {tail : Steps Current C} (isTail : Tail rest tail) : Tail (.cons step serde rest) tail

structure Counted {Older : Type} (steps : Steps Current Older) : Prop where
  increments : steps.Every fun step _ => step.toVersion.toNat = step.fromVersion.toNat + 1
  sequential : steps.Adjacent

theorem Counted.rest {A B : Type} {step : MigrationStep A B} {serde : Serde A}
    {rest : Steps Current B} (counted : Counted (.cons step serde rest)) : Counted rest :=
  ⟨counted.increments.2, counted.sequential.2⟩

theorem Counted.rest_fromVersion {A B : Type} {step : MigrationStep A B} {serde : Serde A}
    {rest : Steps Current B} (counted : Counted (.cons step serde rest)) :
    rest.fromVersion.toNat = step.fromVersion.toNat + 1 := by
  rw [← counted.sequential.1]
  exact counted.increments.1

theorem Counted.toVersion_eq {Older : Type} {steps : Steps Current Older}
    (counted : Counted steps) :
    steps.toVersion.toNat = steps.fromVersion.toNat + steps.length := by
  induction steps with
  | last step serde => exact counted.increments
  | cons step serde rest inductionHypothesis =>
      have below := inductionHypothesis counted.rest
      rw [counted.rest_fromVersion] at below
      rw [Steps.toVersion, Steps.fromVersion, Steps.length, below]
      omega

theorem Counted.tail {A B : Type} {steps : Steps Current A} {tail : Steps Current B}
    (counted : Counted steps) (isTail : Tail steps tail) : Counted tail := by
  induction isTail with
  | self => exact counted
  | later _ inductionHypothesis => exact inductionHypothesis counted.rest

theorem Counted.le_tail {A B : Type} {steps : Steps Current A} {tail : Steps Current B}
    (counted : Counted steps) (isTail : Tail steps tail) :
    steps.fromVersion.toNat ≤ tail.fromVersion.toNat := by
  induction isTail with
  | self => exact Nat.le_refl _
  | later _ inductionHypothesis =>
      have above := inductionHypothesis counted.rest
      rw [counted.rest_fromVersion] at above
      exact Nat.le_of_succ_le above

theorem Tail.toVersion_eq {A B : Type} {steps : Steps Current A} {tail : Steps Current B}
    (isTail : Tail steps tail) : tail.toVersion = steps.toVersion := by
  induction isTail with
  | self => rfl
  | later _ inductionHypothesis => exact inductionHypothesis

theorem Steps.Every.head {Older : Type} {steps : Steps Current Older}
    {p : {A B : Type} → MigrationStep A B → Serde A → Prop} {A : Type}
    {tail : Steps Current A}
    (every : steps.Every p) (isTail : Tail steps tail) : tail.Every p := by
  induction isTail with
  | self => exact every
  | later _ inductionHypothesis => exact inductionHypothesis every.2

/-- Behind its first arm a chain is the chain of its other steps. -/
theorem arms_cons {A B : Type} {step : MigrationStep A B} {serde : Serde A} {rest : Steps Current B}
    (counted : Counted (.cons step serde rest)) {version : UInt32}
    (other : version ≠ step.fromVersion) :
    (∀ data, (Steps.cons step serde rest).fromArms data version step.fromVersion.toNat =
        rest.fromArms data version rest.fromVersion.toNat) ∧
      ∀ current, (Steps.cons step serde rest).toArms current version step.fromVersion.toNat =
        rest.toArms current version rest.fromVersion.toNat := by
  constructor
  · intro data
    rw [Steps.fromArms, UInt32.ofNat_toNat, if_neg other, counted.rest_fromVersion]
  · intro current
    rw [Steps.toArms, UInt32.ofNat_toNat, if_neg other, counted.rest_fromVersion]

theorem arms_of_tail {A B : Type} {steps : Steps Current A} {tail : Steps Current B}
    (counted : Counted steps) (isTail : Tail steps tail) :
    (∀ data, steps.fromArms data tail.fromVersion steps.fromVersion.toNat =
        some (tail.fromArm data)) ∧
      ∀ current, steps.toArms current tail.fromVersion steps.fromVersion.toNat =
        some (tail.toArm current) := by
  induction isTail with
  | self steps =>
      cases steps with
      | last step serde => simp [Steps.fromArms, Steps.toArms, Steps.fromVersion]
      | cons step serde rest => simp [Steps.fromArms, Steps.toArms, Steps.fromVersion]
  | @later A B C step serde rest tail isTail inductionHypothesis =>
      have above := counted.rest.le_tail isTail
      have other : tail.fromVersion ≠ step.fromVersion := by
        intro same
        rw [same, counted.rest_fromVersion] at above
        omega
      obtain ⟨fromRest, toRest⟩ := arms_cons counted other
      obtain ⟨fromTail, toTail⟩ := inductionHypothesis counted.rest
      exact ⟨fun data => (fromRest data).trans (fromTail data),
        fun current => (toRest current).trans (toTail current)⟩

theorem Steps.length_pos {Older : Type} (steps : Steps Current Older) : 1 ≤ steps.length := by
  cases steps with
  | last step serde => exact Nat.le_refl 1
  | cons step serde rest => exact Nat.le_add_left 1 _

theorem arms_outside {Older : Type} {steps : Steps Current Older} (counted : Counted steps)
    {version : UInt32} (outside : version < steps.fromVersion ∨ steps.toVersion ≤ version) :
    (∀ data, steps.fromArms data version steps.fromVersion.toNat = none) ∧
      ∀ current, steps.toArms current version steps.fromVersion.toNat = none := by
  have other : version ≠ steps.fromVersion := by
    rintro rfl
    have longer := counted.toVersion_eq
    have positive := steps.length_pos
    rw [UInt32.lt_iff_toNat_lt, UInt32.le_iff_toNat_le] at outside
    omega
  induction steps with
  | last step serde =>
      change version ≠ step.fromVersion at other
      simp [Steps.fromArms, Steps.toArms, Steps.fromVersion, other]
  | cons step serde rest inductionHypothesis =>
      obtain ⟨fromRest, toRest⟩ := arms_cons counted other
      have next := counted.rest_fromVersion
      have longer := counted.rest.toVersion_eq
      have positive := rest.length_pos
      have outsideRest : version < rest.fromVersion ∨ rest.toVersion ≤ version := by
        change version < step.fromVersion ∨ rest.toVersion ≤ version at outside
        rw [UInt32.lt_iff_toNat_lt] at outside ⊢
        exact outside.imp_left fun below => by omega
      have otherRest : version ≠ rest.fromVersion := by
        rintro rfl
        rw [UInt32.lt_iff_toNat_lt, UInt32.le_iff_toNat_le] at outsideRest
        omega
      obtain ⟨fromNone, toNone⟩ := inductionHypothesis counted.rest outsideRest otherRest
      exact ⟨fun data => (fromRest data).trans (fromNone data),
        fun current => (toRest current).trans (toNone current)⟩

theorem exists_tail {Older : Type} {steps : Steps Current Older} (counted : Counted steps)
    {version : UInt32} (above : steps.fromVersion ≤ version) (below : version < steps.toVersion) :
    ∃ (A : Type) (tail : Steps Current A), Tail steps tail ∧ tail.fromVersion = version := by
  induction steps with
  | last step serde =>
      refine ⟨_, _, .self _, ?_⟩
      have increments : step.toVersion.toNat = step.fromVersion.toNat + 1 := counted.increments
      change step.fromVersion ≤ version at above
      change version < step.toVersion at below
      rw [UInt32.le_iff_toNat_le] at above
      rw [UInt32.lt_iff_toNat_lt] at below
      apply UInt32.toNat_inj.mp
      change step.fromVersion.toNat = _
      omega
  | cons step serde rest inductionHypothesis =>
      by_cases here : step.fromVersion = version
      · exact ⟨_, _, .self _, here⟩
      · have next := counted.rest_fromVersion
        have further : rest.fromVersion ≤ version := by
          change step.fromVersion ≤ version at above
          rw [UInt32.le_iff_toNat_le] at above ⊢
          have apart : step.fromVersion.toNat ≠ version.toNat :=
            fun same => here (UInt32.toNat_inj.mp same)
          omega
        obtain ⟨A, tail, isTail, starts⟩ := inductionHypothesis counted.rest further below
        exact ⟨A, tail, .later isTail, starts⟩

end AimDb.Contracts.Migration
