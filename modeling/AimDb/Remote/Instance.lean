import AimDb.BuildInfo.Section
import AimDb.Hex
import AimDb.Identity
import AimDb.Json.Scan
import AimDb.Json.Text
import AimDb.Session.Aimx.SerdeJson

/-!
# The `instance.info` reply
-/

namespace AimDb.Remote

open BuildInfo (Section PostLink Usize)
open Hex (hex)
open Json
open Session.Aimx.SerdeJson (escaped)

def instanceInfoReplyMax : ℕ := 6 * 1024

def aimdbVersion : String := "3.0.0"

def null : Bytes := utf8 "null"

def postLinkText : PostLink → Bytes
  | .none => null
  | .erased => objectText [("state", escaped "erased")]
  | .written data => objectText [("state", escaped "written"), ("len", decimal data.length)]
  | .malformed => objectText [("state", escaped "malformed")]

/-- The `build` field of a section whose payload is lent as `info`. -/
def buildText (usize : Usize) (parsed : Section) (info : Bytes) : Bytes :=
  objectText [("format", decimal parsed.format), ("info", info),
    ("post_link", postLinkText (parsed.postLink usize))]

def instanceText (identity : Identity) : Bytes :=
  objectText [("name", (identity.name.map escaped).getD null),
    ("uid", (identity.uid.map fun uid => escaped (hex uid)).getD null)]

/-- The members of the reply, given its `build`. -/
def replyMembers (identity : Identity) (build : Option Bytes) : List (String × Bytes) :=
  [("aimdb_version", escaped aimdbVersion), ("instance", instanceText identity),
    ("build", build.getD null)]

/-- The reply; a payload that cannot be lent leaves `build` null. -/
def instanceInfoReply (serde : InfoSerde) (usize : Usize) (identity : Identity) : Bytes :=
  let build := identity.buildInfo.bind fun parsed =>
    (serde.rawValue parsed.payload).map (buildText usize parsed)
  objectText (replyMembers identity build)

open BuildInfo (payloadMax sectionMax)
open Session.Aimx.SerdeJson (escapeByte isStringBody_escaped)

variable {serde : InfoSerde} {usize : Usize}

theorem length_escapeByte_le (b : UInt8) : (escapeByte b).length ≤ 6 := by
  have fixed : (utf8 "u00").length = 3 := by decide
  rw [escapeByte]
  split_ifs
  all_goals simp [fixed]

theorem length_escaped_le (s : String) : (escaped s).length ≤ 6 * (utf8 s).length + 2 := by
  have inside : ∀ bytes : Bytes, (bytes.flatMap escapeByte).length ≤ 6 * bytes.length := by
    intro bytes
    induction bytes with
    | nil => simp
    | cons b bytes inductionHypothesis =>
        have head := length_escapeByte_le b
        rw [List.flatMap_cons, List.length_append, List.length_cons]
        omega
  have body := inside (utf8 s)
  simp only [escaped, List.length_append, List.length_cons, List.length_nil]
  omega

theorem length_escaped_plain {s : String} (plain : IsPlain s) :
    (escaped s).length = (utf8 s).length + 2 := by
  rw [escaped, Session.Aimx.SerdeJson.flatMap_escapeByte_plain plain]
  simp

theorem length_decimal_le {n digits : ℕ} (small : n < 10 ^ digits) (some : 0 < digits) :
    (decimal n).length ≤ digits := by
  rw [decimal]
  split
  · exact some
  · rw [List.length_map, List.length_reverse]
    exact (Nat.digits_length_le_iff (by decide) n).mpr small

theorem isPlain_keys :
    ∀ key ∈ ["aimdb_version", "instance", "build", "name", "uid", "format", "info",
    "post_link", "state", "len"], IsPlain key := by
  decide +kernel

/-- What is said of a part of the reply: it is a value, on one line, of so many bytes at most. -/
structure Part (bytes : Bytes) (most : ℕ) : Prop where
  value : IsValue bytes
  line : payloadIsSingleLine bytes = true
  short : bytes.length ≤ most

theorem payloadIsSingleLine_iff {bytes : Bytes} :
    payloadIsSingleLine bytes = true ↔ ∀ b ∈ bytes, b ≠ 0x0d ∧ b ≠ 0x0a := by
  simp [payloadIsSingleLine]

theorem part_null : Part null 4 := ⟨null_value, by decide, by decide⟩

theorem part_escaped (s : String) : Part (escaped s) (6 * (utf8 s).length + 2) where
  value := .string (isStringBody_escaped (utf8 s))
  line := by
    rw [payloadIsSingleLine_iff]
    intro b mem
    have printable := Session.Aimx.SerdeJson.reference.quoted_printable s b mem
    constructor
    · rintro rfl
      exact absurd printable (by decide)
    · rintro rfl
      exact absurd printable (by decide)
  short := length_escaped_le s

theorem part_decimal {n digits : ℕ} (small : n < 10 ^ digits) (some : 0 < digits) :
    Part (decimal n) digits where
  value := decimal_value n
  line := by
    rw [payloadIsSingleLine_iff]
    intro b mem
    have digit := (decimal_digits n).2 b mem
    constructor
    · rintro rfl
      exact absurd digit (by decide)
    · rintro rfl
      exact absurd digit (by decide)
  short := length_decimal_le small some

theorem part_object {members : List (String × Bytes)} {most : ℕ}
    (parts : ∀ m ∈ members, IsPlain m.1 ∧ IsValue m.2 ∧ payloadIsSingleLine m.2 = true)
    (short : (objectText members).length ≤ most) : Part (objectText members) most where
  value := objectText_value fun m mem => ⟨(parts m mem).1, (parts m mem).2.1⟩
  line := by
    rw [payloadIsSingleLine_iff]
    intro b mem
    by_contra breaks
    rw [not_and_or, Decidable.not_not, Decidable.not_not] at breaks
    have other : b ∉ [quote, comma, colon, openBrace, closeBrace] := by
      rcases breaks with rfl | rfl
      · decide
      · decide
    obtain ⟨m, inside, inKey | inValue⟩ := (mem_objectText_iff other).mp mem
    · have plain := (parts m inside).1 b inKey
      rcases breaks with rfl | rfl
      · exact absurd plain (by decide)
      · exact absurd plain (by decide)
    · have line := payloadIsSingleLine_iff.mp (parts m inside).2.2 b inValue
      rcases breaks with rfl | rfl
      · exact line.1 rfl
      · exact line.2 rfl
  short := short

theorem length_member {name : String} {value : Bytes} {key most : ℕ}
    (isKey : (utf8 name).length = key) (short : value.length ≤ most) :
    (memberText (name, value)).length ≤ key + most + 3 := by
  rw [length_memberText]
  dsimp only
  omega

theorem part_postLink {postLink : PostLink} (small : ∀ data, postLink = .written data →
    data.length < sectionMax) : Part (postLinkText postLink) 31 := by
  have state : (utf8 "state").length = 5 := by decide
  have key : IsPlain "state" := isPlain_keys "state" (by simp)
  have tagged : ∀ tag : String, (escaped tag).length ≤ 11 →
      Part (objectText [("state", escaped tag)]) 31 := by
    intro tag short
    refine part_object ?_ ?_
    · intro m mem
      obtain rfl := List.mem_singleton.mp mem
      exact ⟨key, (part_escaped tag).value, (part_escaped tag).line⟩
    · rw [length_objectText]
      have first := length_member state short
      simp only [List.map_cons, List.map_nil, List.sum_cons, List.sum_nil, List.length_nil]
      omega
  cases postLink with
  | none => exact ⟨part_null.value, part_null.line, Nat.le_trans part_null.short (by decide)⟩
  | erased => exact tagged "erased" (by decide)
  | malformed => exact tagged "malformed" (by decide)
  | written data =>
      have len : (utf8 "len").length = 3 := by decide
      have bound : data.length < 10 ^ 5 := Nat.lt_trans (small data rfl) (by decide)
      have digits := part_decimal bound (by decide)
      refine part_object ?_ ?_
      · intro m mem
        rcases List.mem_pair.mp mem with rfl | rfl
        · exact ⟨key, (part_escaped _).value, (part_escaped _).line⟩
        · exact ⟨isPlain_keys "len" (by simp), digits.value, digits.line⟩
      · have tag : (escaped "written").length ≤ 9 := by decide
        have first := length_member state tag
        have second := length_member len digits.short
        rw [length_objectText]
        simp only [List.map_cons, List.map_nil, List.sum_cons, List.sum_nil, List.length_cons,
          List.length_nil]
        omega

structure Limits (identity : Identity) : Prop where
  name : ∀ name ∈ identity.name, (utf8 name).length ≤ nameMax
  uid : ∀ uid ∈ identity.uid, uid.length ≤ uidMax

theorem part_getD {value : Option Bytes} {most : ℕ} (four : 4 ≤ most)
    (part : ∀ bytes ∈ value, Part bytes most) : Part (value.getD null) most := by
  cases value with
  | none => exact ⟨part_null.value, part_null.line, Nat.le_trans part_null.short four⟩
  | some bytes => exact part bytes rfl

theorem part_instance {identity : Identity} (limits : Limits identity) :
    Part (instanceText identity) 852 := by
  have name : Part ((identity.name.map escaped).getD null) 770 := by
    refine part_getD (by decide) fun bytes mem => ?_
    obtain ⟨name, given, rfl⟩ := Option.map_eq_some_iff.mp mem
    have limit : (utf8 name).length ≤ 128 := limits.name name given
    exact ⟨(part_escaped name).value, (part_escaped name).line,
      Nat.le_trans (part_escaped name).short (by omega)⟩
  have uid : Part ((identity.uid.map fun uid => escaped (hex uid)).getD null) 66 := by
    refine part_getD (by decide) fun bytes mem => ?_
    obtain ⟨uid, given, rfl⟩ := Option.map_eq_some_iff.mp mem
    have limit : uid.length ≤ 32 := limits.uid uid given
    refine ⟨(part_escaped _).value, (part_escaped _).line, ?_⟩
    rw [length_escaped_plain (Hex.hex_isPlain uid), Hex.length_utf8_hex]
    omega
  have keys : (utf8 "name").length = 4 ∧ (utf8 "uid").length = 3 := by decide
  refine part_object ?_ ?_
  · intro m mem
    rcases List.mem_pair.mp mem with rfl | rfl
    · exact ⟨isPlain_keys "name" (by simp), name.value, name.line⟩
    · exact ⟨isPlain_keys "uid" (by simp), uid.value, uid.line⟩
  · have first := length_member keys.1 name.short
    have second := length_member keys.2 uid.short
    rw [length_objectText]
    simp only [List.map_cons, List.map_nil, List.sum_cons, List.sum_nil, List.length_cons,
      List.length_nil]
    omega

structure Lent (parsed : Section) (usize : Usize) (info : Bytes) : Prop where
  part : Part info payloadMax
  format : parsed.format = BuildInfo.format
  written : ∀ data, parsed.postLink usize = .written data → data.length < sectionMax

theorem part_build {parsed : Section} {info : Bytes} (lent : Lent parsed usize info) :
    Part (buildText usize parsed info) 4160 := by
  have format : Part (decimal parsed.format) 1 :=
    part_decimal (by rw [lent.format]; decide) (by decide)
  have postLink := part_postLink lent.written
  have keys : (utf8 "format").length = 6 ∧ (utf8 "info").length = 4 ∧
      (utf8 "post_link").length = 9 := by decide
  refine part_object ?_ ?_
  · intro m mem
    simp only [List.mem_cons, List.not_mem_nil, or_false] at mem
    rcases mem with rfl | rfl | rfl
    · exact ⟨isPlain_keys "format" (by simp), format.value, format.line⟩
    · exact ⟨isPlain_keys "info" (by simp), lent.part.value, lent.part.line⟩
    · exact ⟨isPlain_keys "post_link" (by simp), postLink.value, postLink.line⟩
  · have first := length_member keys.1 format.short
    have second := length_member keys.2.1 lent.part.short
    have third := length_member keys.2.2 postLink.short
    have most : payloadMax = 4096 := rfl
    rw [length_objectText]
    simp only [List.map_cons, List.map_nil, List.sum_cons, List.sum_nil, List.length_cons,
      List.length_nil]
    omega

theorem part_members {identity : Identity} {build : Option Bytes} (limits : Limits identity)
    (part : ∀ bytes ∈ build, Part bytes 4160) :
    ∀ m ∈ replyMembers identity build,
      IsPlain m.1 ∧ IsValue m.2 ∧ payloadIsSingleLine m.2 = true := by
  have version := part_escaped aimdbVersion
  have inst := part_instance limits
  have build := part_getD (by decide) part
  intro m mem
  simp only [replyMembers, List.mem_cons, List.not_mem_nil, or_false] at mem
  rcases mem with rfl | rfl | rfl
  · exact ⟨isPlain_keys "aimdb_version" (by simp), version.value, version.line⟩
  · exact ⟨isPlain_keys "instance" (by simp), inst.value, inst.line⟩
  · exact ⟨isPlain_keys "build" (by simp), build.value, build.line⟩

theorem part_reply {identity : Identity} {build : Option Bytes} (limits : Limits identity)
    (part : ∀ bytes ∈ build, Part bytes 4160) :
    Part (objectText (replyMembers identity build)) instanceInfoReplyMax := by
  refine part_object (part_members limits part) ?_
  have version : (escaped aimdbVersion).length ≤ 7 := by decide
  have inst := part_instance limits
  have build := part_getD (by decide) part
  have keys : (utf8 "aimdb_version").length = 13 ∧ (utf8 "instance").length = 8 ∧
      (utf8 "build").length = 5 := by decide
  have first := length_member keys.1 version
  have second := length_member keys.2.1 inst.short
  have third := length_member keys.2.2 build.short
  have most : instanceInfoReplyMax = 6144 := rfl
  rw [replyMembers, length_objectText]
  simp only [List.map_cons, List.map_nil, List.sum_cons, List.sum_nil, List.length_cons,
    List.length_nil]
  omega

structure AcceptedSection (serde : InfoSerde) (usize : Usize) (bytes : Bytes) (parsed : Section) :
    Prop where
  isSection : BuildInfo.parse usize bytes = some (.ok parsed)
  short : parsed.payload.length ≤ payloadMax
  line : payloadIsSingleLine parsed.payload = true
  checked : serde.checkJsonObject parsed.payload = .ok ()

theorem acceptedSection_of_checkBuildInfo {bytes : Bytes} {parsed : Section}
    (ok : checkBuildInfo serde usize bytes = .ok parsed) :
    AcceptedSection serde usize bytes parsed := by
  rw [checkBuildInfo] at ok
  cases result : BuildInfo.parse usize bytes with
  | none => simp [result] at ok
  | some outcome =>
      cases outcome with
      | error e => simp [result] at ok
      | ok found =>
          rw [result] at ok
          dsimp only at ok
          split at ok
          · cases ok
          next short =>
          split at ok
          · cases ok
          next line =>
          cases checked : serde.checkJsonObject found.payload with
          | error e => simp [checked] at ok
          | ok passed =>
              rw [checked] at ok
              obtain rfl := Except.ok.inj ok
              exact ⟨result, Nat.le_of_not_lt short, by simpa using line, checked⟩

variable {config : IdentityConfig}

theorem freeze_accepted (accepted : (config.freeze serde usize).2 = []) :
    Limits (config.freeze serde usize).1 ∧ ∀ bytes, config.buildInfo = some bytes →
      ∃ parsed, (config.freeze serde usize).1.buildInfo = some parsed ∧
        AcceptedSection serde usize bytes parsed := by
  obtain ⟨name, uid, buildInfo⟩ := config
  simp only [IdentityConfig.freeze, List.append_eq_nil_iff] at accepted
  obtain ⟨⟨nameOk, uidOk⟩, buildOk⟩ := accepted
  refine ⟨⟨?_, ?_⟩, ?_⟩
  · rintro given same
    obtain rfl : name = some given := same
    dsimp only at nameOk
    split at nameOk
    · cases nameOk
    next short =>
    exact Nat.le_of_not_lt short
  · rintro given same
    obtain rfl : uid = some given := same
    dsimp only at uidOk
    split at uidOk
    · cases uidOk
    next short =>
    exact Nat.le_of_not_lt short
  · rintro bytes same
    obtain rfl : buildInfo = some bytes := same
    cases checked : checkBuildInfo serde usize bytes with
    | error e => simp [checked] at buildOk
    | ok parsed =>
        exact ⟨parsed, by simp [IdentityConfig.freeze, checked],
          acceptedSection_of_checkBuildInfo checked⟩

structure Served (parsed : Section) (reply : Bytes) : Prop where
  object : IsObject reply
  line : payloadIsSingleLine reply = true
  short : reply.length ≤ instanceInfoReplyMax
  /-- The payload stands in the `build` field as it stands in the section. -/
  build : ∃ members build fields, readObject reply = some members ∧
    ("build", build) ∈ members ∧
    readObject build = some fields ∧ ("info", parsed.payload) ∈ fields

theorem isObject_objectText {members : List (String × Bytes)}
    (wellFormed : ∀ m ∈ members, IsPlain m.1 ∧ IsValue m.2) : IsObject (objectText members) :=
  ⟨objectText_value wellFormed, _, rfl⟩

variable {bytes info : Bytes} {parsed : Section} {identity : Identity}

theorem AcceptedSection.lent (accepted : AcceptedSection serde usize bytes parsed)
    (part : Part info payloadMax) : Lent parsed usize info where
  part := part
  format := BuildInfo.format_of_parse accepted.isSection
  written data isWritten := by
    have inside := BuildInfo.length_of_postLink isWritten
    have small := BuildInfo.length_of_parse accepted.isSection
    have header : 0 < BuildInfo.headerLen := by decide
    omega

/-- The object in a payload, which the spaces around it leave short and on one line. -/
theorem AcceptedSection.object (accepted : AcceptedSection serde usize bytes parsed) :
    ∃ before object rest, parsed.payload = before ++ object ++ rest ∧ IsBlank before ∧
      IsObject object ∧ IsBlank rest ∧ Part object payloadMax := by
  obtain ⟨before, object, rest, split, blankBefore, isObject, blankRest⟩ :=
    serde.checkJsonObject_ok accepted.checked
  have line := payloadIsSingleLine_iff.mp accepted.line
  have short := accepted.short
  rw [split] at line short
  refine ⟨before, object, rest, split, blankBefore, isObject, blankRest, isObject.1, ?_, ?_⟩
  · rw [payloadIsSingleLine_iff]
    exact fun b mem => line b (List.mem_append_left _ (List.mem_append_right _ mem))
  · rw [List.length_append, List.length_append] at short
    omega

theorem reply_lent (limits : Limits identity) (lent : Lent parsed usize info) :
    let reply := objectText (replyMembers identity (some (buildText usize parsed info)))
    IsObject reply ∧ payloadIsSingleLine reply = true ∧
      reply.length ≤ instanceInfoReplyMax ∧
      readObject reply = some (replyMembers identity (some (buildText usize parsed info))) ∧
      readObject (buildText usize parsed info) =
        some [("format", decimal parsed.format), ("info", info),
          ("post_link", postLinkText (parsed.postLink usize))] := by
  have build := part_build lent
  have parts := part_members limits fun bytes mem => by
    obtain rfl := Option.some.inj mem
    exact build
  have reply := part_reply limits fun bytes mem => by
    obtain rfl := Option.some.inj mem
    exact build
  have values : ∀ m ∈ replyMembers identity (some (buildText usize parsed info)),
      IsPlain m.1 ∧ IsValue m.2 := fun m mem => ⟨(parts m mem).1, (parts m mem).2.1⟩
  refine ⟨isObject_objectText values, reply.line, reply.short, readObject_objectText values, ?_⟩
  refine readObject_objectText fun m mem => ?_
  simp only [List.mem_cons, List.not_mem_nil, or_false] at mem
  rcases mem with rfl | rfl | rfl
  · exact ⟨isPlain_keys "format" (by simp), decimal_value _⟩
  · exact ⟨isPlain_keys "info" (by simp), lent.part.value⟩
  · exact ⟨isPlain_keys "post_link" (by simp), (part_postLink lent.written).value⟩

def IsBareText (payload : Bytes) : Prop :=
  IsUtf8 payload ∧ payload.head? = some openBrace ∧ payload.getLast? = some closeBrace

theorem not_isBlank_cons {b : UInt8} {bytes : Bytes} (solid : isSpace b = false) :
    ¬ IsBlank (b :: bytes) := by
  intro blank
  have space := isSpace_iff.mpr (blank b List.mem_cons_self)
  exact Bool.noConfusion (solid.symm.trans space)

theorem eq_of_isBareText {before object rest : Bytes} (blankBefore : IsBlank before)
    (blankRest : IsBlank rest) (bare : IsBareText (before ++ object ++ rest)) :
    before ++ object ++ rest = object := by
  obtain ⟨-, head, last⟩ := bare
  have noneBefore : before = [] := by
    cases before with
    | nil => rfl
    | cons b before =>
        obtain rfl : b = openBrace := Option.some.inj head
        exact absurd blankBefore (not_isBlank_cons (by decide))
  have noneRest : rest = [] := by
    rcases List.eq_nil_or_concat rest with none | ⟨front, b, rfl⟩
    · exact none
    · rw [List.concat_eq_append, ← List.append_assoc, List.getLast?_concat] at last
      obtain rfl := Option.some.inj last
      have space := isSpace_iff.mpr (blankRest closeBrace (by simp))
      exact absurd space (by decide)
  rw [noneBefore, noneRest, List.nil_append, List.append_nil]

theorem IsObject.ends {object : Bytes} (isObject : IsObject object) :
    object.head? = some openBrace ∧ object.getLast? = some closeBrace := by
  obtain ⟨-, inside, rfl⟩ := isObject
  exact ⟨rfl, List.getLast?_concat⟩

theorem mem_replyMembers_build {build text : Bytes} {lent : Option Bytes}
    (mem : ("build", build) ∈ replyMembers identity lent) (given : lent.getD null = text) :
    build = text := by
  simp only [replyMembers, List.mem_cons, List.not_mem_nil, or_false, Prod.mk.injEq] at mem
  rcases mem with ⟨differs, -⟩ | ⟨differs, -⟩ | ⟨-, rfl⟩
  · exact absurd differs (by decide)
  · exact absurd differs (by decide)
  · exact given

theorem readObject_null : readObject null = none := by decide

theorem served_iff (limits : Limits identity) (accepted : AcceptedSection serde usize bytes parsed)
    (given : identity.buildInfo = some parsed) :
    Served parsed (instanceInfoReply serde usize identity) ↔ IsBareText parsed.payload := by
  obtain ⟨before, object, rest, split, blankBefore, isObject, blankRest, part⟩ :=
    accepted.object
  have reply : instanceInfoReply serde usize identity =
      objectText (replyMembers identity
        ((serde.rawValue parsed.payload).map (buildText usize parsed))) := by
    rw [instanceInfoReply, given]
    rfl
  by_cases isUtf8 : IsUtf8 object
  · have raw : serde.rawValue parsed.payload = some object := by
      rw [split]
      exact serde.rawValue_text blankBefore isObject.1 blankRest isUtf8
    obtain ⟨isReply, line, short, readReply, readBuild⟩ :=
      reply_lent limits (accepted.lent part)
    rw [reply, raw, Option.map_some]
    constructor
    · intro served
      obtain ⟨members, build, fields, read, mem, readFields, info⟩ := served.build
      obtain rfl := Option.some.inj (read.symm.trans readReply)
      obtain rfl := mem_replyMembers_build mem rfl
      obtain rfl := Option.some.inj (readFields.symm.trans readBuild)
      have same : parsed.payload = object := by
        simp only [List.mem_cons, List.not_mem_nil, or_false, Prod.mk.injEq] at info
        rcases info with ⟨differs, -⟩ | ⟨-, same⟩ | ⟨differs, -⟩
        · exact absurd differs (by decide)
        · exact same
        · exact absurd differs (by decide)
      rw [same]
      exact ⟨isUtf8, isObject.ends⟩
    · intro bare
      rw [split] at bare
      have same := split.trans (eq_of_isBareText blankBefore blankRest bare)
      refine ⟨isReply, line, short, _, _, _, readReply, ?_, readBuild, ?_⟩
      · simp [replyMembers]
      · simp [same]
  · have raw : serde.rawValue parsed.payload = none := by
      rw [split]
      exact serde.rawValue_not_text blankBefore isObject.1 blankRest isUtf8
    rw [reply, raw, Option.map_none]
    constructor
    · intro served
      obtain ⟨members, build, fields, read, mem, readFields, -⟩ := served.build
      have parts :=
        part_members limits fun bytes (mem : bytes ∈ (none : Option Bytes)) =>
          absurd mem (by simp)
      have readReply := readObject_objectText fun m inside =>
        ⟨(parts m inside).1, (parts m inside).2.1⟩
      obtain rfl := Option.some.inj (read.symm.trans readReply)
      obtain rfl := mem_replyMembers_build mem rfl
      cases readFields.symm.trans readObject_null
    · intro bare
      rw [split] at bare
      have same := eq_of_isBareText blankBefore blankRest bare
      rw [same] at bare
      exact absurd bare.1 isUtf8

/-- A node that started with a build section serves its payload exactly when that is a text
with no space around it. -/
theorem build_served_iff {bytes : Bytes} (given : config.buildInfo = some bytes)
    (accepted : (config.freeze serde usize).2 = []) :
    ∃ parsed, (config.freeze serde usize).1.buildInfo = some parsed ∧
      (Served parsed (instanceInfoReply serde usize (config.freeze serde usize).1) ↔
        IsBareText parsed.payload) := by
  obtain ⟨limits, build⟩ := freeze_accepted accepted
  obtain ⟨parsed, frozen, isAccepted⟩ := build bytes given
  exact ⟨parsed, frozen, served_iff limits isAccepted frozen⟩

open Classical in
noncomputable def byGrammar : InfoSerde where
  checkJsonObject bytes :=
    if ∃ before object rest, bytes = before ++ object ++ rest ∧ IsBlank before ∧
      IsObject object ∧
      IsBlank rest then .ok () else .error "expected a JSON object"
  rawValue bytes := if IsUtf8 (trimmed bytes) then some (trimmed bytes) else none
  checkJsonObject_ok ok := by
    split at ok
    · assumption
    · cases ok
  checkJsonObject_text {members} wellFormed := by
    refine if_pos ⟨[], objectText members, [], by simp, isBlank_nil, ?_, isBlank_nil⟩
    exact isObject_objectText wellFormed
  rawValue_text blankBefore isValue blankRest isUtf8 := by
    rw [trimmed_append blankBefore isValue blankRest, if_pos isUtf8]
  rawValue_not_text blankBefore isValue blankRest notUtf8 := by
    rw [trimmed_append blankBefore isValue blankRest, if_neg notUtf8]

def usize32 : Usize := ⟨2 ^ 32 - 1, by decide⟩

def configOf (members : List (String × Bytes)) : IdentityConfig :=
  ⟨some "gateway-3", some [0xde, 0xad], some (BuildInfo.image (objectText members) [])⟩

theorem freeze_configOf {members : List (String × Bytes)}
    (wellFormed : ∀ m ∈ members, IsPlain m.1 ∧ IsValue m.2)
    (short : (objectText members).length ≤ 64)
    (line : payloadIsSingleLine (objectText members) = true) :
    ((configOf members).freeze byGrammar usize32) =
      (⟨some "gateway-3", some [0xde, 0xad],
        some (BuildInfo.sectionOf (objectText members) [])⟩, []) := by
  have start : BuildInfo.regionStart (objectText members) ≤ 104 := by
    have header : BuildInfo.headerLen = 32 := rfl
    rw [BuildInfo.regionStart]
    omega
  have most : sectionMax = 65536 := rfl
  have parsed : BuildInfo.parse usize32 (BuildInfo.image (objectText members) [] ++ []) =
      some (.ok (BuildInfo.sectionOf (objectText members) [])) :=
    BuildInfo.parse_image usize32 (by rw [List.length_nil]; omega) []
  rw [List.append_nil] at parsed
  have checked : checkBuildInfo byGrammar usize32 (BuildInfo.image (objectText members) []) =
      .ok (BuildInfo.sectionOf (objectText members) []) := by
    have limit : payloadMax = 4096 := rfl
    rw [checkBuildInfo, parsed]
    dsimp only [BuildInfo.sectionOf]
    rw [if_neg (by omega), if_neg (by simp [line]), byGrammar.checkJsonObject_text wellFormed]
  have name : ¬ nameMax < (utf8 "gateway-3").length := by decide
  simp [IdentityConfig.freeze, configOf, checked, name, uidMax]

theorem build_served_iff_empty :
    ∃ parsed, ((configOf []).freeze byGrammar usize32).1.buildInfo = some parsed ∧
      Served parsed
        (instanceInfoReply byGrammar usize32 ((configOf []).freeze byGrammar usize32).1) := by
  have none : ∀ m ∈ ([] : List (String × Bytes)), IsPlain m.1 ∧ IsValue m.2 :=
    fun m mem => absurd mem List.not_mem_nil
  have frozen := freeze_configOf none (by decide) (by decide)
  have embedded : (configOf []).buildInfo = some (BuildInfo.image (objectText []) []) := rfl
  obtain ⟨parsed, given, served⟩ := build_served_iff embedded (congrArg Prod.snd frozen)
  refine ⟨parsed, given, served.mpr ?_⟩
  rw [frozen] at given
  obtain rfl := Option.some.inj given
  exact ⟨⟨"\x7b\x7d", by decide⟩, rfl, rfl⟩

def byteString : List (String × Bytes) := [("a", [quote, 0xff, quote])]

/-- The node starts with a build section, and reports that it has none. -/
theorem build_not_served_byteString :
    ¬ ∀ (config : IdentityConfig) (bytes : Bytes), config.buildInfo = some bytes →
      (config.freeze byGrammar usize32).2 = [] →
      ∃ parsed, (config.freeze byGrammar usize32).1.buildInfo = some parsed ∧
        Served parsed (instanceInfoReply byGrammar usize32
          (config.freeze byGrammar usize32).1) := by
  intro claimed
  have wellFormed : ∀ m ∈ byteString, IsPlain m.1 ∧ IsValue m.2 := by
    intro m mem
    obtain rfl := List.mem_singleton.mp mem
    have body : IsStringBody [0xff] := .plain (by decide) .nil
    exact ⟨by decide +kernel, .string body⟩
  have frozen := freeze_configOf wellFormed (by decide) (by decide)
  obtain ⟨parsed, given, served⟩ :=
    claimed (configOf byteString) _ rfl (congrArg Prod.snd frozen)
  obtain ⟨limits, build⟩ := freeze_accepted (congrArg Prod.snd frozen)
  obtain ⟨found, same, accepted⟩ := build _ rfl
  obtain rfl := Option.some.inj (same.symm.trans given)
  obtain ⟨⟨text, isText⟩, -, -⟩ := (served_iff limits accepted given).mp served
  rw [frozen] at given
  obtain rfl := Option.some.inj given
  have none : fromUtf8? (objectText byteString) = none := by decide
  have some := fromUtf8?_utf8 text
  rw [isText] at some
  cases some.symm.trans none

end AimDb.Remote
