import AimDb.Session.Aimx.Codec
import Mathlib.Tactic.MkIffOfInductiveProp

/-!
# What survives a trip through one frame

A frame is read back with the fields it was written with, except that a raw
`null` comes back as an absent field, and only if none of its strings needed
an escape.
-/

namespace AimDb.Session.Aimx

open AimDb.Json

def IsPayload (bytes : Bytes) : Prop := IsValue bytes ∧ IsUtf8 bytes

namespace Frame

variable {json : SerdeJson}

/-- Every raw field of the frame holds one JSON value. -/
structure RawsValid (frame : Frame) : Prop where
  params : ∀ raw ∈ frame.params, IsPayload raw
  payload : ∀ raw ∈ frame.payload, IsPayload raw
  data : ∀ raw ∈ frame.data, IsPayload raw
  ok : ∀ raw ∈ frame.ok, IsPayload raw

/-- No string field of the frame needs an escape. -/
@[mk_iff]
structure StringsPlain (frame : Frame) : Prop where
  t : IsPlain frame.t
  method : ∀ s ∈ frame.method, IsPlain s
  topic : ∀ s ∈ frame.topic, IsPlain s
  sub : ∀ s ∈ frame.sub, IsPlain s
  err : ∀ s ∈ frame.err, IsPlain s

/-- A raw field as it is read: `null` and absence are the same. -/
def presentRaw (raw : Option Bytes) : Option Bytes := raw.filter (· ≠ utf8 "null")

def received (frame : Frame) : Frame :=
  { frame with
    params := presentRaw frame.params
    payload := presentRaw frame.payload
    data := presentRaw frame.data
    ok := presentRaw frame.ok }

theorem optionalMember_wellFormed {α : Type} {key : String} {write : α → Bytes}
    {field : Option α} (plainKey : IsPlain key) (valid : ∀ v ∈ field, IsValue (write v)) :
    ∀ m ∈ optionalMember key write field, IsPlain m.1 ∧ IsValue m.2 := by
  intro m mem
  obtain ⟨v, inField, rfl⟩ := List.mem_map.mp mem
  exact ⟨plainKey, valid v (Option.mem_toList.mp inField)⟩

theorem plain_fieldNames : ∀ name ∈ fieldNames, IsPlain name := by decide +kernel

theorem members_wellFormed {frame : Frame} (valid : frame.RawsValid) :
    ∀ m ∈ frame.members json, IsPlain m.1 ∧ IsValue m.2 := by
  have number {key : String} (plainKey : IsPlain key) (field : Option UInt64) :=
    optionalMember_wellFormed plainKey fun v (_ : v ∈ field) => decimal_value v.toNat
  have flag {key : String} (plainKey : IsPlain key) (field : Option Bool) :=
    optionalMember_wellFormed plainKey fun v (_ : v ∈ field) => boolean_value v
  have string {key : String} (plainKey : IsPlain key) (field : Option String) :=
    optionalMember_wellFormed plainKey fun v (_ : v ∈ field) => json.quoted_value v
  have raw {key : String} {field : Option Bytes} (plainKey : IsPlain key)
      (valid : ∀ raw ∈ field, IsPayload raw) :
      ∀ m ∈ optionalMember key verbatim field, IsPlain m.1 ∧ IsValue m.2 :=
    optionalMember_wellFormed plainKey fun v mem => (valid v mem).1
  simp only [members, List.forall_mem_append]
  refine ⟨⟨⟨⟨⟨⟨⟨⟨⟨⟨⟨⟨?_, number ?_ _⟩, number ?_ _⟩, flag ?_ _⟩,
    string ?_ _⟩, string ?_ _⟩, string ?_ _⟩, number ?_ _⟩,
    raw ?_ valid.params⟩, raw ?_ valid.payload⟩, raw ?_ valid.data⟩, raw ?_ valid.ok⟩,
    string ?_ _⟩
  · rw [List.forall_mem_singleton]
    exact ⟨plain_fieldNames "t" (by simp [fieldNames]), json.quoted_value frame.t⟩
  all_goals exact plain_fieldNames _ (by simp [fieldNames])

theorem lookup_optionalMember {α : Type} {key : String} {write : α → Bytes}
    {field : Option α} (name : String) :
    (optionalMember key write field).lookup name =
      if name = key then field.map write else none := by
  cases field with
  | none => simp [optionalMember]
  | some v =>
    by_cases same : name = key
    · simp [optionalMember, same]
    · have differ : (name == key) = false := by simpa using same
      simp [optionalMember, List.lookup_cons, differ, same]

theorem optionalMember_names {α : Type} (key : String) (write : α → Bytes)
    (field : Option α) : ((optionalMember key write field).map Prod.fst).Sublist [key] := by
  cases field <;> simp [optionalMember]

theorem distinctFields_members (frame : Frame) : DistinctFields (frame.members json) := by
  have names : ((frame.members json).map Prod.fst).Sublist fieldNames := by
    simp only [members, List.map_append]
    exact (((((((((((((List.Sublist.refl ["t"]).append (optionalMember_names "id" _ _)).append
      (optionalMember_names "seq" _ _)).append (optionalMember_names "last" _ _)).append
      (optionalMember_names "method" _ _)).append (optionalMember_names "topic" _ _)).append
      (optionalMember_names "sub" _ _)).append (optionalMember_names "ts" _ _)).append
      (optionalMember_names "params" _ _)).append (optionalMember_names "payload" _ _)).append
      (optionalMember_names "data" _ _)).append (optionalMember_names "ok" _ _)).append
      (optionalMember_names "err" _ _))
  exact ((List.filter_sublist).trans names).nodup (by decide)

theorem readOptional_written {α : Type} {members : List (String × Bytes)} {key : String}
    {read : Bytes → Option α} {write : α → Bytes} {field : Option α}
    (found : members.lookup key = field.map write)
    (readable : ∀ v ∈ field, write v ≠ utf8 "null" ∧ read (write v) = some v) :
    readOptional members key read = some field := by
  rw [readOptional, found]
  cases field with
  | none => rfl
  | some v => simp [(readable v rfl).1, (readable v rfl).2]

theorem decimal_ne_null (n : ℕ) : decimal n ≠ utf8 "null" := by
  intro same
  have digit := (decimal_digits n).2 'n'.toUInt8 (by rw [same]; decide)
  exact absurd digit (by decide)

theorem quoted_ne_null (s : String) : json.quoted s ≠ utf8 "null" := by
  intro same
  have head := json.quoted_head s
  rw [same] at head
  exact absurd head (by decide)

theorem readOptional_u64 {members : List (String × Bytes)} {key : String} {field : Option UInt64}
    (found : members.lookup key = field.map fun n : UInt64 => decimal n.toNat) :
    readOptional members key json.u64 = some field :=
  readOptional_written found fun n _ => ⟨decimal_ne_null n.toNat, json.u64_decimal n⟩

theorem readOptional_bool {members : List (String × Bytes)} {key : String} {field : Option Bool}
    (found : members.lookup key = field.map boolean) :
    readOptional members key json.bool = some field :=
  readOptional_written found fun b _ => ⟨by cases b <;> decide, json.bool_boolean b⟩

/-- A string field is lent only if it needs no escape; otherwise the whole
frame fails to deserialize. -/
theorem readOptional_str {members : List (String × Bytes)} {key : String} {field : Option String}
    (found : members.lookup key = field.map json.quoted) :
    readOptional members key json.borrowedStr =
      if ∀ s ∈ field, IsPlain s then some field else none := by
  split_ifs with plain
  · exact readOptional_written found fun s mem =>
      ⟨quoted_ne_null s, json.borrowedStr_plain s (plain s mem)⟩
  · cases field with
    | none => simp at plain
    | some s =>
      have escaped : ¬ IsPlain s := by simpa using plain
      simp [readOptional, found, quoted_ne_null, json.borrowedStr_escaped s escaped]

theorem readOptional_raw {members : List (String × Bytes)} {key : String} {field : Option Bytes}
    (found : members.lookup key = field.map verbatim) (valid : ∀ raw ∈ field, IsPayload raw) :
    readOptional members key json.rawValue = some (presentRaw field) := by
  rw [readOptional, found]
  cases field with
  | none => rfl
  | some raw =>
    have lent := json.rawValue_value raw (valid raw rfl).1 (valid raw rfl).2
    by_cases null : raw = utf8 "null" <;>
      simp [verbatim, presentRaw, Option.filter, null, lent]

theorem object_toVec {frame : Frame} (valid : frame.RawsValid) :
    json.object (frame.toVec json) = some (frame.members json) :=
  json.object_text _ (members_wellFormed valid)

theorem readRequired_t (frame : Frame) :
    readRequired (frame.members json) "t" json.borrowedStr =
      if IsPlain frame.t then some frame.t else none := by
  have found : (frame.members json).lookup "t" = some (json.quoted frame.t) := by
    simp [members]
  rw [readRequired, found]
  split_ifs with plain
  · exact json.borrowedStr_plain _ plain
  · exact json.borrowedStr_escaped _ plain

theorem lookup_members (json : SerdeJson) (frame : Frame) :
    (frame.members json).lookup "id" = frame.id.map (fun n => decimal n.toNat) ∧
    (frame.members json).lookup "seq" = frame.seq.map (fun n => decimal n.toNat) ∧
    (frame.members json).lookup "last" = frame.last.map boolean ∧
    (frame.members json).lookup "method" = frame.method.map json.quoted ∧
    (frame.members json).lookup "topic" = frame.topic.map json.quoted ∧
    (frame.members json).lookup "sub" = frame.sub.map json.quoted ∧
    (frame.members json).lookup "ts" = frame.ts.map (fun n => decimal n.toNat) ∧
    (frame.members json).lookup "params" = frame.params.map verbatim ∧
    (frame.members json).lookup "payload" = frame.payload.map verbatim ∧
    (frame.members json).lookup "data" = frame.data.map verbatim ∧
    (frame.members json).lookup "ok" = frame.ok.map verbatim ∧
    (frame.members json).lookup "err" = frame.err.map json.quoted := by
  simp only [members, List.lookup_append, lookup_optionalMember, List.lookup_cons,
    List.lookup_nil, String.reduceBEq, String.reduceEq, if_true, if_false, Option.none_or,
    Option.or_none, and_self]

/-- Reading a written frame comes down to lending its strings. -/
theorem ofMembers_members {frame : Frame} (valid : frame.RawsValid) :
    ofMembers json (frame.members json) =
      (if IsPlain frame.t then some frame.t else none).bind fun t =>
      (if ∀ s ∈ frame.method, IsPlain s then some frame.method else none).bind fun method =>
      (if ∀ s ∈ frame.topic, IsPlain s then some frame.topic else none).bind fun topic =>
      (if ∀ s ∈ frame.sub, IsPlain s then some frame.sub else none).bind fun sub =>
      (if ∀ s ∈ frame.err, IsPlain s then some frame.err else none).bind fun err =>
      some { frame.received with t, method, topic, sub, err } := by
  obtain ⟨id, seq, last, method, topic, sub, ts, params, payload, data, ok, err⟩ :=
    lookup_members json frame
  simp only [ofMembers, Option.bind_eq_bind, Option.bind_some, distinctFields_members, guard_true,
    readRequired_t, readOptional_u64 id, readOptional_u64 seq, readOptional_u64 ts,
    readOptional_bool last, readOptional_str method, readOptional_str topic,
    readOptional_str sub, readOptional_str err, readOptional_raw params valid.params,
    readOptional_raw payload valid.payload, readOptional_raw data valid.data,
    readOptional_raw ok valid.ok]
  rfl

theorem fromSlice_toVec (json : SerdeJson) {frame : Frame} (valid : frame.RawsValid)
    (plain : frame.StringsPlain) :
    fromSlice json (frame.toVec json) = .ok frame.received := by
  rw [fromSlice, object_toVec valid, Option.bind_some, ofMembers_members valid, if_pos plain.t,
    if_pos plain.method, if_pos plain.topic, if_pos plain.sub, if_pos plain.err]
  rfl

theorem fromSlice_toVec_escaped (json : SerdeJson) {frame : Frame} (valid : frame.RawsValid)
    (escaped : ¬ frame.StringsPlain) :
    fromSlice json (frame.toVec json) = .error .malformed := by
  rw [fromSlice, object_toVec valid, Option.bind_some, ofMembers_members valid]
  by_cases t : IsPlain frame.t
  swap
  · rw [if_neg t, Option.bind_none]
  by_cases method : ∀ s ∈ frame.method, IsPlain s
  swap
  · simp only [if_neg method, Option.bind_none, Option.bind_fun_none]
  by_cases topic : ∀ s ∈ frame.topic, IsPlain s
  swap
  · simp only [if_neg topic, Option.bind_none, Option.bind_fun_none]
  by_cases sub : ∀ s ∈ frame.sub, IsPlain s
  swap
  · simp only [if_neg sub, Option.bind_none, Option.bind_fun_none]
  by_cases err : ∀ s ∈ frame.err, IsPlain s
  swap
  · simp only [if_neg err, Option.bind_none, Option.bind_fun_none]
  exact absurd ⟨t, method, topic, sub, err⟩ escaped

end Frame

end AimDb.Session.Aimx
