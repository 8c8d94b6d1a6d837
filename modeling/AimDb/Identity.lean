import AimDb.BuildInfo
import AimDb.Json.Object

/-!
# Instance identity

The name and the unique ID are given at startup, the build by the binary's build-info
section.  The builder checks all three, so that they can be served later.
-/

namespace AimDb.Remote

open BuildInfo (Section Usize ParseError payloadMax)
open Json

/-- Longest instance name, in bytes of UTF-8. -/
def nameMax : ℕ := 128

def uidMax : ℕ := 32

def IsObject (bytes : Bytes) : Prop :=
  IsValue bytes ∧ ∃ inside, bytes = openBrace :: inside ++ [closeBrace]

/-- What the identity relies on in the JSON library. -/
structure InfoSerde where
  checkJsonObject : Bytes → Except String Unit
  /-- `&RawValue`, borrowed from the input. -/
  rawValue : Bytes → Option Bytes
  checkJsonObject_ok : ∀ {bytes}, checkJsonObject bytes = .ok () →
    ∃ before object rest, bytes = before ++ object ++ rest ∧ IsBlank before ∧
    IsObject object ∧
      IsBlank rest
  /-- The contents of strings are passed over, so they need not be UTF-8. -/
  checkJsonObject_text : ∀ {members : List (String × Bytes)},
    (∀ m ∈ members, IsPlain m.1 ∧ IsValue m.2) →
    checkJsonObject (objectText members) = .ok ()
  rawValue_text : ∀ {before value rest : Bytes}, IsBlank before → IsValue value →
    IsBlank rest →
    IsUtf8 value → rawValue (before ++ value ++ rest) = some value
  rawValue_not_text : ∀ {before value rest : Bytes}, IsBlank before → IsValue value →
    IsBlank rest → ¬ IsUtf8 value → rawValue (before ++ value ++ rest) = none

def parseErrorText : ParseError → String
  | .noMagic => "no build-info magic"
  | .unknownFormat v => s!"unknown build-info format {v}"
  | .truncated => "build-info section is truncated"
  | .inconsistent => "build-info header is inconsistent"

def payloadIsSingleLine (payload : Bytes) : Bool := !payload.any fun b => b == 0x0d || b == 0x0a

variable (serde : InfoSerde) (usize : Usize)

def checkBuildInfo (bytes : Bytes) : Except String Section :=
  match BuildInfo.parse usize bytes with
  -- the parser does not panic
  | none => .error "panic"
  | some (.error e) => .error s!"build info: {parseErrorText e}"
  | some (.ok parsed) =>
      if payloadMax < parsed.payload.length then
        .error s!"build info: the payload is {parsed.payload.length} bytes, at most {payloadMax}"
      else if payloadIsSingleLine parsed.payload = false then
        .error "build info: the payload contains a line break"
      else
        match serde.checkJsonObject parsed.payload with
        | .error e => .error s!"build info: {e}"
        | .ok () => .ok parsed

structure Identity where
  name : Option String
  uid : Option Bytes
  buildInfo : Option Section
  deriving DecidableEq, Repr

structure IdentityConfig where
  name : Option String
  uid : Option Bytes
  buildInfo : Option Bytes
  deriving DecidableEq, Repr

def IdentityConfig.freeze (config : IdentityConfig) : Identity × List String :=
  let nameErrors :=
    match config.name with
    | some name =>
        if nameMax < (utf8 name).length then
          [s!"instance name is {(utf8 name).length} bytes, at most {nameMax}"]
        else []
    | none => []
  let uidErrors :=
    match config.uid with
    | some uid =>
        if uidMax < uid.length then
          [s!"instance UID is {uid.length} bytes, at most {uidMax}"]
        else []
    | none => []
  let (buildInfo, buildErrors) :=
    match config.buildInfo.map (checkBuildInfo serde usize) with
    | some (.ok parsed) => (some parsed, [])
    | some (.error e) => (none, [e])
    | none => (none, [])
  (⟨config.name, config.uid, buildInfo⟩, nameErrors ++ uidErrors ++ buildErrors)

end AimDb.Remote
