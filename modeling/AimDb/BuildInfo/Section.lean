import AimDb.BuildInfo

/-!
# Sections survive encoding, writing and parsing

An image is a header, the payload, padding and the region. Parsing such an image
gives the parts back whatever follows, and parsing anything at all never panics.
-/

namespace AimDb.BuildInfo

open Layout

/-- The fields of a header; four zeros follow them. -/
def fields (payloadLen regionOff regionLen : ℕ) : Bytes :=
  magic ++ (leBytes 2 format ++ (leBytes 2 headerLen ++ (leBytes 4 payloadLen ++
    (leBytes 4 regionOff ++ (leBytes 4 regionLen ++ leBytes 4 (regionOff + regionLen))))))

@[simp] theorem length_fields (payloadLen regionOff regionLen : ℕ) :
    (fields payloadLen regionOff regionLen).length = 28 := by
  simp [fields, magic]

def header (payloadLen regionOff regionLen : ℕ) : Bytes :=
  fields payloadLen regionOff regionLen ++ List.replicate 4 0

@[simp] theorem length_header (payloadLen regionOff regionLen : ℕ) :
    (header payloadLen regionOff regionLen).length = headerLen := by
  simp [header, headerLen]

def regionStart (payload : Bytes) : ℕ := (headerLen + payload.length + 7) / 8 * 8

theorem payload_before_region (payload : Bytes) :
    headerLen + payload.length ≤ regionStart payload := by
  rw [regionStart]
  omega

def image (payload region : Bytes) : Bytes :=
  header payload.length (regionStart payload) region.length ++ (payload ++
    (List.replicate (regionStart payload - (headerLen + payload.length)) 0 ++ region))

theorem header_written {β : Type} (payloadLen regionOff regionLen : ℕ) {room : ℕ}
    (fits : 32 ≤ room) (rest : Bytes → Option β) :
    (do
      let out ← overwrite (List.replicate room 0) 0 magic
      let out ← overwrite out 8 (leBytes 2 format)
      let out ← overwrite out 10 (leBytes 2 headerLen)
      let out ← overwrite out 12 (leBytes 4 payloadLen)
      let out ← overwrite out 16 (leBytes 4 regionOff)
      let out ← overwrite out 20 (leBytes 4 regionLen)
      let out ← overwrite out 24 (leBytes 4 (regionOff + regionLen))
      rest out) =
      rest (fields payloadLen regionOff regionLen ++ List.replicate (room - 28) 0) := by
  rw [← List.nil_append (List.replicate room 0)]
  simp (disch := simp [magic] <;> omega) only [overwrite_append, Option.bind_eq_bind,
    Option.bind_some]
  simp [fields, magic, Nat.sub_sub]

theorem encode_eq {usize : Usize} {payload encoded : Bytes} {regionLen : ℕ}
    (accepted : encode usize payload regionLen = some (.ok encoded)) :
    payload.length ≤ payloadMax ∧ regionStart payload + regionLen ≤ sectionMax ∧
      encoded = image payload (List.replicate regionLen erased) := by
  rw [encode] at accepted
  split at accepted
  · cases accepted
  dsimp only at accepted
  split at accepted
  · cases accepted
  next short fits =>
  have before : 32 + payload.length ≤ regionStart payload := payload_before_region payload
  rw [not_or, Nat.not_lt, Nat.not_lt] at fits
  refine ⟨Nat.not_lt.mp short, fits.2, ?_⟩
  have written := (header_written payload.length (regionStart payload) regionLen
    (Nat.le_trans (Nat.le_trans (Nat.le_add_right _ _) before) (Nat.le_add_right _ regionLen))
    fun out => do
      let out ← overwrite out headerLen payload
      let out ← fillFrom out (regionStart payload) erased
      return Except.ok (ε := Error) out).symm.trans accepted
  have length : headerLen = 28 + 4 := rfl
  rw [overwrite_behind 4 0 (by omega) (by rw [length_fields, length]), Option.bind_eq_bind,
    Option.bind_some, fillFrom_behind (regionStart payload - (headerLen + payload.length)) 0 erased
      (by omega) (by simp; omega), Option.bind_some] at written
  have rest : regionStart payload + regionLen - 28 - (4 + payload.length) -
      (regionStart payload - (headerLen + payload.length)) = regionLen := by
    omega
  rw [rest] at written
  rw [← Except.ok.inj (Option.some.inj written), image, header, List.length_replicate]
  simp

theorem fieldAt_header {n value start payloadLen regionOff regionLen : ℕ} (fits : value < 256 ^ n)
    (inside : start + n ≤ headerLen)
    (kept : ((header payloadLen regionOff regionLen).drop start).take n = leBytes n value) :
    fieldAt n (header payloadLen regionOff regionLen) start = some value := by
  rw [fieldAt, if_pos (by rwa [length_header]), kept, leValue_leBytes_of_lt fits]

theorem readFields_header {payloadLen regionOff regionLen : ℕ} (payload : payloadLen < 256 ^ 4)
    (total : regionOff + regionLen < 256 ^ 4) :
    readFields (header payloadLen regionOff regionLen) =
      some ⟨headerLen, payloadLen, regionOff, regionLen, regionOff + regionLen⟩ := by
  have off : regionOff < 256 ^ 4 := Nat.lt_of_le_of_lt (Nat.le_add_right _ _) total
  have len : regionLen < 256 ^ 4 := Nat.lt_of_le_of_lt (Nat.le_add_left _ _) total
  rw [readFields, fieldAt_header (by decide : headerLen < 256 ^ 2) (by decide) rfl,
    fieldAt_header payload (by decide) rfl, fieldAt_header off (by decide) rfl,
    fieldAt_header len (by decide) rfl, fieldAt_header total (by decide) rfl]
  rfl

def sectionOf (payload region : Bytes) : Section := ⟨format, payload, region⟩

theorem addU64_of_le {a b : ℕ} (small : a + b ≤ sectionMax) : addU64 a b = some (a + b) :=
  if_pos (Nat.lt_of_le_of_lt small (by decide))

theorem Usize.cast_of_le (usize : Usize) {n : ℕ} (small : n ≤ sectionMax) : usize.cast n = n :=
  Nat.mod_eq_of_lt (Nat.lt_succ_of_le (Nat.le_trans small usize.holdsSection))

def front (payload : Bytes) (regionLen : ℕ) : Bytes :=
  header payload.length (regionStart payload) regionLen ++ payload ++
    List.replicate (regionStart payload - (headerLen + payload.length)) 0

theorem length_front (payload : Bytes) (regionLen : ℕ) :
    (front payload regionLen).length = regionStart payload := by
  have before := payload_before_region payload
  simp only [front, List.length_append, length_header, List.length_replicate]
  omega

theorem image_eq (payload region : Bytes) :
    image payload region = front payload region.length ++ region := by
  simp [image, front]

theorem length_image (payload region : Bytes) :
    (image payload region).length = regionStart payload + region.length := by
  rw [image_eq, List.length_append, length_front]

theorem slice_image (usize : Usize) {payload region : Bytes}
    (fits : regionStart payload + region.length ≤ sectionMax) (suffix : Bytes) :
    Fields.slice usize ⟨headerLen, payload.length, regionStart payload, region.length,
      regionStart payload + region.length⟩ format (image payload region ++ suffix) =
      some (.ok (sectionOf payload region)) := by
  have before := payload_before_region payload
  have payloadFits : headerLen + payload.length ≤ sectionMax := by omega
  have first : getRange (image payload region ++ suffix) headerLen
      (headerLen + payload.length) = some payload := by
    rw [image, List.append_assoc, List.append_assoc]
    exact getRange_append (length_header _ _ _).symm (by rw [length_header])
  have second : getRange (image payload region ++ suffix) (regionStart payload)
      (regionStart payload + region.length) = some region := by
    rw [image_eq, List.append_assoc]
    exact getRange_append (length_front _ _).symm (by rw [length_front])
  simp only [Fields.slice, addU64_of_le payloadFits, Option.bind_eq_bind, Option.bind_some,
    usize.cast_of_le payloadFits, usize.cast_of_le fits, first, second,
    usize.cast_of_le (by decide : headerLen ≤ sectionMax),
    usize.cast_of_le (by omega : regionStart payload ≤ sectionMax)]
  rfl

theorem parse_image (usize : Usize) {payload region : Bytes}
    (fits : regionStart payload + region.length ≤ sectionMax) (suffix : Bytes) :
    parse usize (image payload region ++ suffix) = some (.ok (sectionOf payload region)) := by
  have before := payload_before_region payload
  have payloadFits : headerLen + payload.length ≤ sectionMax := by omega
  have top : sectionMax < 256 ^ 4 := by decide
  have head : (image payload region ++ suffix).take headerLen =
      header payload.length (regionStart payload) region.length := by
    rw [image, List.append_assoc, List.take_left' (length_header _ _ _)]
  have isMagic : getRange (image payload region ++ suffix) 0 magic.length = some magic := rfl
  have length : (image payload region ++ suffix).length =
      regionStart payload + region.length + suffix.length := by
    rw [List.length_append, length_image]
  have consistent : Fields.inconsistent ⟨headerLen, payload.length, regionStart payload,
      region.length, regionStart payload + region.length⟩ = some false := by
    have aligned : regionStart payload % 8 = 0 := Nat.mul_mod_left _ _
    simp [Fields.inconsistent, addU64_of_le payloadFits, addU64_of_le fits, aligned,
      Nat.not_lt.mpr before, Nat.not_lt.mpr fits]
  have read := readFields_header (by omega : payload.length < 256 ^ 4)
    (by omega : regionStart payload + region.length < 256 ^ 4)
  rw [parse, if_neg (not_not.mpr isMagic), if_neg (by omega), head]
  dsimp only
  rw [fieldAt_header (by decide : format < 256 ^ 2) (by decide) rfl, read]
  simp only [Option.bind_eq_bind, Option.bind_some, consistent,
    slice_image usize fits suffix, ne_eq, not_true_eq_false, if_false]
  rw [if_neg (by simp), if_neg (by omega)]

theorem postLink_erased (usize : Usize) (payload : Bytes) {regionLen : ℕ}
    (some : 4 ≤ regionLen) :
    (sectionOf payload (List.replicate regionLen erased)).postLink usize = .erased := by
  have nonempty : regionLen ≠ 0 := by omega
  have long : ¬ regionLen < 4 := by omega
  simp [Section.postLink, sectionOf, nonempty, long, List.take_replicate, Nat.min_eq_left some]

theorem leBytes_ne_erased {len : ℕ} (small : len ≤ sectionMax) :
    leBytes 4 len ≠ List.replicate 4 erased := by
  intro same
  have values := congrArg leValue same
  rw [leValue_leBytes_of_lt (Nat.lt_of_le_of_lt small (by decide))] at values
  have top : leValue (List.replicate 4 erased) = 4294967295 := rfl
  have bound : sectionMax = 65536 := rfl
  omega

theorem postLink_written (usize : Usize) (payload data tail : Bytes)
    (small : data.length ≤ sectionMax) :
    (sectionOf payload (leBytes 4 data.length ++ (data ++ tail))).postLink usize =
      .written data := by
  have taken : (leBytes 4 data.length ++ (data ++ tail)).take 4 = leBytes 4 data.length :=
    List.take_left' (length_leBytes 4 _)
  have dropped : (leBytes 4 data.length ++ (data ++ tail)).drop 4 = data ++ tail :=
    List.drop_left' (length_leBytes 4 _)
  have nonempty : leBytes 4 data.length ++ (data ++ tail) ≠ [] := by simp [leBytes]
  have fits := Nat.le_trans small usize.holdsSection
  rw [Section.postLink, sectionOf]
  dsimp only
  rw [if_neg nonempty, if_neg (by simp), taken, if_neg (leBytes_ne_erased small), dropped,
    leValue_leBytes_of_lt (Nat.lt_of_le_of_lt small (by decide)), if_pos ⟨fits, by simp⟩,
    List.take_left]

theorem writeRegion_image (payload data tail : Bytes) {region : Bytes}
    (fills : 4 + data.length + tail.length = region.length) :
    writeRegion (image payload region) region.length data tail =
      image payload (leBytes 4 data.length ++ (data ++ tail)) := by
  have length : (leBytes 4 data.length ++ (data ++ tail)).length = region.length := by
    simp only [List.length_append, length_leBytes]
    omega
  rw [writeRegion, length_image, Nat.add_sub_cancel, image_eq, image_eq, length,
    List.take_left' (length_front _ _)]

theorem addU64_isSome {a b : ℕ} (first : a < 256 ^ 4) (second : b < 256 ^ 4) :
    addU64 a b = some (a + b) :=
  if_pos (by omega)

/-- Fields as a header holds them: each fits its width. -/
structure Fields.Narrow (fields : Fields) : Prop where
  headerLen : fields.headerLen < 256 ^ 4
  payloadLen : fields.payloadLen < 256 ^ 4
  regionOff : fields.regionOff < 256 ^ 4
  regionLen : fields.regionLen < 256 ^ 4

theorem readFields_isSome {bytes : Bytes} (long : headerLen ≤ bytes.length) :
    ∃ fields, readFields bytes = some fields ∧ fields.Narrow ∧
      fieldAt 4 bytes 24 = some fields.totalLen := by
  have reach (start n : ℕ) (inside : start + n ≤ headerLen) :
      ∃ value, fieldAt n bytes start = some value :=
    fieldAt_isSome (Nat.le_trans inside long)
  obtain ⟨headerLen, first⟩ := reach 10 2 (by decide)
  obtain ⟨payloadLen, second⟩ := reach 12 4 (by decide)
  obtain ⟨regionOff, third⟩ := reach 16 4 (by decide)
  obtain ⟨regionLen, fourth⟩ := reach 20 4 (by decide)
  obtain ⟨totalLen, fifth⟩ := reach 24 4 (by decide)
  refine ⟨⟨headerLen, payloadLen, regionOff, regionLen, totalLen⟩, ?_, ?_, fifth⟩
  · rw [readFields, first, second, third, fourth, fifth]
    rfl
  · exact ⟨Nat.lt_trans (fieldAt_lt first) (by decide), fieldAt_lt second, fieldAt_lt third,
      fieldAt_lt fourth⟩

/-- The checks never overflow, and what they pass is in order. -/
theorem Fields.inconsistent_spec {fields : Fields} (narrow : fields.Narrow) :
    ∃ verdict, fields.inconsistent = some verdict ∧
      (verdict = false → BuildInfo.headerLen ≤ fields.headerLen ∧
        fields.headerLen + fields.payloadLen ≤ fields.regionOff ∧
        fields.regionOff + fields.regionLen = fields.totalLen ∧
        fields.totalLen ≤ sectionMax) := by
  rw [Fields.inconsistent, addU64_isSome narrow.headerLen narrow.payloadLen,
    addU64_isSome narrow.regionOff narrow.regionLen]
  split
  · exact ⟨true, rfl, fun same => by cases same⟩
  next headed =>
  simp only [Option.bind_eq_bind, Option.bind_some]
  split
  · exact ⟨true, rfl, fun same => by cases same⟩
  split
  · exact ⟨true, rfl, fun same => by cases same⟩
  next payload _ =>
  refine ⟨_, rfl, fun verdict => ⟨Nat.not_lt.mp headed, Nat.not_lt.mp payload, ?_⟩⟩
  simpa using verdict

/-- What is accepted lies inside the declared length, the payload before the region. -/
def Section.Inside (parsed : Section) (bytes : Bytes) : Prop :=
  ∃ payloadAt regionAt, payloadAt + parsed.payload.length ≤ regionAt ∧
    fieldAt 4 (bytes.take headerLen) 24 = some (regionAt + parsed.region.length) ∧
    regionAt + parsed.region.length ≤ bytes.length ∧
    (bytes.drop payloadAt).take parsed.payload.length = parsed.payload ∧
    (bytes.drop regionAt).take parsed.region.length = parsed.region

/-- Fields that pass the checks name two ranges of the bytes. -/
theorem slice_spec (usize : Usize) {fields : Fields} {bytes : Bytes} (version : ℕ)
    (before : fields.headerLen + fields.payloadLen ≤ fields.regionOff)
    (ends : fields.regionOff + fields.regionLen = fields.totalLen)
    (small : fields.totalLen ≤ sectionMax) (enough : fields.totalLen ≤ bytes.length) :
    fields.slice usize version bytes =
      some (.ok ⟨version, (bytes.drop fields.headerLen).take fields.payloadLen,
        (bytes.drop fields.regionOff).take fields.regionLen⟩) := by
  have first : getRange bytes fields.headerLen (fields.headerLen + fields.payloadLen) =
      some ((bytes.drop fields.headerLen).take fields.payloadLen) :=
    getRange_eq_some_iff.mpr ⟨Nat.le_add_right _ _, by omega, by rw [Nat.add_sub_cancel_left]⟩
  have second : getRange bytes fields.regionOff fields.totalLen =
      some ((bytes.drop fields.regionOff).take fields.regionLen) :=
    getRange_eq_some_iff.mpr ⟨by omega, enough, by rw [← ends, Nat.add_sub_cancel_left]⟩
  simp only [Fields.slice, addU64_of_le (Nat.le_trans before (by omega)), Option.bind_eq_bind,
    Option.bind_some, usize.cast_of_le (by omega : fields.headerLen ≤ sectionMax),
    usize.cast_of_le (by omega : fields.headerLen + fields.payloadLen ≤ sectionMax),
    usize.cast_of_le (by omega : fields.regionOff ≤ sectionMax), usize.cast_of_le small,
    first, second]
  rfl

structure Fields.Of (fields : Fields) (bytes : Bytes) : Prop where
  before : fields.headerLen + fields.payloadLen ≤ fields.regionOff
  ends : fields.regionOff + fields.regionLen = fields.totalLen
  small : fields.totalLen ≤ sectionMax
  enough : fields.totalLen ≤ bytes.length
  headed : BuildInfo.headerLen ≤ fields.headerLen
  declared : fieldAt 4 (bytes.take BuildInfo.headerLen) 24 = some fields.totalLen

theorem parse_cases (usize : Usize) (bytes : Bytes) :
    (∃ error, parse usize bytes = some (.error error)) ∨
      ∃ fields, Fields.Of fields bytes ∧ parse usize bytes =
        some (.ok ⟨format, (bytes.drop fields.headerLen).take fields.payloadLen,
          (bytes.drop fields.regionOff).take fields.regionLen⟩) := by
  rw [parse]
  split
  · exact .inl ⟨_, rfl⟩
  split
  · exact .inl ⟨_, rfl⟩
  next _ short =>
  have long : headerLen ≤ (bytes.take headerLen).length := by
    rw [List.length_take]
    omega
  obtain ⟨version, found⟩ :=
    fieldAt_isSome (Nat.le_trans (by decide : 8 + 2 ≤ headerLen) long)
  obtain ⟨fields, read, narrow, total⟩ := readFields_isSome long
  obtain ⟨verdict, checked, ordered⟩ := Fields.inconsistent_spec narrow
  simp only [found, read, checked, Option.bind_eq_bind, Option.bind_some]
  split
  · exact .inl ⟨_, rfl⟩
  split
  · exact .inl ⟨_, rfl⟩
  split
  · exact .inl ⟨_, rfl⟩
  next known passed enough =>
  obtain ⟨headed, before, ends, small⟩ := ordered (by simpa using passed)
  rw [Nat.not_lt] at enough
  rw [Decidable.not_not.mp known]
  exact .inr ⟨fields, ⟨before, ends, small, enough, headed, total⟩,
    slice_spec usize format before ends small enough⟩

theorem Fields.Of.length_payload {fields : Fields} {bytes : Bytes} (of : fields.Of bytes) :
    ((bytes.drop fields.headerLen).take fields.payloadLen).length = fields.payloadLen := by
  have before := of.before
  have ends := of.ends
  have enough := of.enough
  rw [List.length_take, List.length_drop]
  omega

theorem Fields.Of.length_region {fields : Fields} {bytes : Bytes} (of : fields.Of bytes) :
    ((bytes.drop fields.regionOff).take fields.regionLen).length = fields.regionLen := by
  have ends := of.ends
  have enough := of.enough
  rw [List.length_take, List.length_drop]
  omega

theorem parse_spec (usize : Usize) (bytes : Bytes) :
    ∃ result, parse usize bytes = some result ∧
      ∀ parsed, result = .ok parsed → parsed.Inside bytes := by
  rcases parse_cases usize bytes with ⟨error, rejected⟩ | ⟨fields, of, accepted⟩
  · exact ⟨_, rejected, fun _ same => by cases same⟩
  · refine ⟨_, accepted, fun parsed same => ?_⟩
    obtain rfl := Except.ok.inj same
    refine ⟨fields.headerLen, fields.regionOff, ?_, ?_, ?_, ?_, ?_⟩
    · rw [of.length_payload]
      exact of.before
    · rw [of.length_region, of.ends, of.declared]
    · rw [of.length_region, of.ends]
      exact of.enough
    · rw [of.length_payload]
    · rw [of.length_region]

theorem length_of_parse {usize : Usize} {bytes : Bytes} {parsed : Section}
    (accepted : parse usize bytes = some (.ok parsed)) :
    headerLen + parsed.payload.length + parsed.region.length ≤ sectionMax := by
  rcases parse_cases usize bytes with ⟨error, rejected⟩ | ⟨fields, of, same⟩
  · cases rejected.symm.trans accepted
  · obtain rfl := Except.ok.inj (Option.some.inj (same.symm.trans accepted))
    dsimp only
    rw [of.length_payload, of.length_region]
    have headed := of.headed
    have before := of.before
    have ends := of.ends
    have small := of.small
    omega

theorem format_of_parse {usize : Usize} {bytes : Bytes} {parsed : Section}
    (accepted : parse usize bytes = some (.ok parsed)) : parsed.format = format := by
  rcases parse_cases usize bytes with ⟨error, rejected⟩ | ⟨fields, of, same⟩
  · cases rejected.symm.trans accepted
  · obtain rfl := Except.ok.inj (Option.some.inj (same.symm.trans accepted))
    rfl

theorem length_of_postLink {usize : Usize} {parsed : Section} {data : Bytes}
    (written : parsed.postLink usize = .written data) : data.length ≤ parsed.region.length := by
  rw [Section.postLink] at written
  split at written
  · cases written
  split at written
  · cases written
  split at written
  · cases written
  dsimp only at written
  split at written
  · obtain rfl := PostLink.written.inj written
    rw [List.length_take, List.length_drop]
    omega
  · cases written

structure SectionContract (usize : Usize) : Prop where
  encoded : ∀ payload regionLen encoded suffix,
    encode usize payload regionLen = some (.ok encoded) →
    ∃ parsed, parse usize (encoded ++ suffix) = some (.ok parsed) ∧ parsed.payload = payload ∧
      parsed.region = List.replicate regionLen erased ∧
      (regionLen = 0 → parsed.postLink usize = .none) ∧
      (4 ≤ regionLen → parsed.postLink usize = .erased)
  written : ∀ payload regionLen encoded data tail suffix,
    encode usize payload regionLen = some (.ok encoded) →
    4 + data.length + tail.length = regionLen →
    ∃ parsed, parse usize (writeRegion encoded regionLen data tail ++ suffix) =
      some (.ok parsed) ∧
      parsed.payload = payload ∧ parsed.postLink usize = .written data
  /-- No byte string makes the parser panic, and what it accepts lies inside the
  declared length. -/
  safe : ∀ bytes, ∃ result, parse usize bytes = some result ∧
    ∀ parsed, result = .ok parsed → parsed.Inside bytes

theorem sectionContract (usize : Usize) : SectionContract usize where
  encoded payload regionLen encoded suffix accepted := by
    obtain ⟨-, fits, rfl⟩ := encode_eq accepted
    refine ⟨_, parse_image usize (by rwa [List.length_replicate]) suffix, rfl, rfl, ?_, ?_⟩
    · rintro rfl
      rfl
    · exact postLink_erased usize payload
  written payload regionLen encoded data tail suffix accepted fills := by
    obtain ⟨-, fits, rfl⟩ := encode_eq accepted
    have length : (List.replicate regionLen erased).length = regionLen := List.length_replicate
    have image := writeRegion_image payload data tail (fills.trans length.symm)
    rw [length] at image
    rw [image]
    refine ⟨_, parse_image usize ?_ suffix, rfl, postLink_written usize payload data tail ?_⟩
    · simp only [List.length_append, length_leBytes]
      omega
    · omega
  safe := parse_spec usize

/-- A payload of two bytes and a region of eight. -/
example : (encode ⟨65536, by decide⟩ [0x7b, 0x7d] 8).map
    (Except.map fun encoded => parse ⟨65536, by decide⟩ (encoded ++ [1])) =
    some (.ok (some (.ok (sectionOf [0x7b, 0x7d] (List.replicate 8 erased))))) := by
  decide

end AimDb.BuildInfo
