import AimDb.Remote.PostLink
import AimDb.BuildInfo.Section
import AimDb.Fallible
import AimDb.Session.Aimx.SerdeJson

/-!
# Downloads end, and end whole

A chunk before the end is never empty, so the number of bytes still missing falls with
every turn of the loop, whatever the peer answers.
-/

namespace AimDb.Remote

open BuildInfo (Section Usize sectionMax)
open Json (Bytes Value utf8 IsPlain)
open Hex (hex)
open Session (RpcError)

variable {serde : Serde} {peer : Peer}

theorem decodeHex_ok {text bytes : Bytes} (ok : decodeHex text = .ok bytes) :
    Hex.unhexPairs text = some bytes := by
  rw [decodeHex] at ok
  split at ok
  · cases ok
  · cases found : Hex.unhexPairs text with
    | none => simp [found] at ok
    | some decoded =>
        rw [found] at ok
        exact congrArg some (Except.ok.inj ok)

structure Accepted (chunk : PostLinkChunk) (offset : ℕ) (total : UInt32) (bytes : Bytes) :
    Prop where
  bounded : total.toNat < sectionMax
  announced : chunk.total = total
  placed : chunk.offset.toNat = offset
  short : (utf8 chunk.data).length ≤ 2 * postLinkChunkMax.toNat
  decoded : Hex.unhexPairs (utf8 chunk.data) = some bytes
  fits : bytes.length ≤ total.toNat - offset
  progress : bytes = [] → total.toNat - offset = 0

theorem accepted_of_checkChunk {chunk : PostLinkChunk} {offset : ℕ} {total : UInt32}
    {bytes : Bytes}
    (ok : checkChunk chunk offset total = .ok bytes) : Accepted chunk offset total bytes := by
  rw [checkChunk] at ok
  split at ok
  · cases ok
  next bounded =>
  split at ok
  · cases ok
  next same =>
  split at ok
  · cases ok
  next asked =>
  split at ok
  · cases ok
  next short =>
  obtain ⟨decoded, hexOk, ok⟩ := bind_eq_ok ok
  dsimp only at ok
  split at ok
  · cases ok
  next fits =>
  split at ok
  · cases ok
  next progress =>
  obtain rfl := Except.ok.inj ok
  exact
    { bounded := Nat.lt_of_not_le bounded
      announced := Decidable.not_not.mp same
      placed := Decidable.not_not.mp asked
      short := Nat.le_of_not_lt short
      decoded := decodeHex_ok hexOk
      fits := Nat.le_of_not_lt fits
      progress := fun empty => Nat.eq_zero_of_not_pos fun rest => progress ⟨empty, rest⟩ }

theorem checkChunk_ok {chunk : PostLinkChunk} {offset : ℕ} {total : UInt32} {bytes : Bytes}
    (accepted : Accepted chunk offset total bytes) : checkChunk chunk offset total = .ok bytes := by
  have even : (utf8 chunk.data).length % 2 = 0 := by
    rw [Hex.length_of_unhexPairs accepted.decoded]
    omega
  have decoded : decodeHex (utf8 chunk.data) = .ok bytes := by
    rw [decodeHex, if_neg (Decidable.not_not.mpr even), accepted.decoded]
  rw [checkChunk, if_neg (Nat.not_le.mpr accepted.bounded),
    if_neg (Decidable.not_not.mpr accepted.announced),
    if_neg (Decidable.not_not.mpr accepted.placed),
    if_neg (Nat.not_lt.mpr accepted.short), decoded]
  change (if _ then _ else if _ then _ else _) = _
  rw [if_neg (Nat.not_lt.mpr accepted.fits), if_neg]
  · rfl
  · rintro ⟨empty, rest⟩
    exact Nat.ne_of_gt rest (accepted.progress empty)

/-- The bytes after `asked` calls, each chunk's at its own offset. -/
inductive Assembled (serde : Serde) (peer : Peer) (total : UInt32) :
    (asked : ℕ) → Bytes → Prop
  | start : Assembled serde peer total 0 []
  | chunk {asked : ℕ} {data reply bytes : Bytes} {chunk : PostLinkChunk} :
      Assembled serde peer total asked data →
      peer asked (Download.params ⟨data, some total⟩) = .ok reply →
      serde.fromSlice reply = some chunk → Accepted chunk data.length total bytes →
      Assembled serde peer total (asked + 1) (data ++ bytes)

variable (serde peer) in
def answers : (fuel asked : ℕ) → Download → List (Except RpcError Bytes)
  | 0, _, _ => []
  | fuel + 1, asked, download =>
      peer asked download.params ::
        match download.step serde (peer asked download.params) with
        | .returned _ => []
        | .again download => answers fuel (asked + 1) download

/-- What may be returned: nothing exactly if a call was answered `not_found`, else an error or as
many bytes as were announced. -/
def Whole (serde : Serde) (peer : Peer) (answered : List (Except RpcError Bytes)) :
    Except ClientError (Option Bytes) → Prop
  | .ok none => .error .notFound ∈ answered
  | .error _ => .error .notFound ∉ answered
  | .ok (some data) => .error .notFound ∉ answered ∧
      ∃ total asked, Assembled serde peer total asked data ∧ data.length = total.toNat

theorem Whole.cons {answered : List (Except RpcError Bytes)}
    {result : Except ClientError (Option Bytes)} (whole : Whole serde peer answered result)
    {answer : Except RpcError Bytes} (found : answer ≠ .error .notFound) :
    Whole serde peer (answer :: answered) result := by
  rcases result with e | (_ | data)
  · exact fun mem => whole ((List.mem_cons.mp mem).resolve_left (Ne.symm found))
  · exact List.mem_cons_of_mem _ whole
  · exact ⟨fun mem => whole.1 ((List.mem_cons.mp mem).resolve_left (Ne.symm found)), whole.2⟩

/-- Where the loop stands between two calls. -/
inductive Underway (serde : Serde) (peer : Peer) : (asked : ℕ) → Download → Prop
  | start : Underway serde peer 0 ⟨[], none⟩
  | further {asked : ℕ} {data : Bytes} {total : UInt32} :
      Assembled serde peer total asked data → data.length < total.toNat →
      total.toNat < sectionMax → Underway serde peer asked ⟨data, some total⟩

variable {asked : ℕ} {download : Download}

theorem Underway.assembled (underway : Underway serde peer asked download) (announced : UInt32) :
    Assembled serde peer (download.total.getD announced) asked download.data := by
  cases underway with
  | start => exact .start
  | further assembled => exact assembled

theorem Underway.length_le (underway : Underway serde peer asked download) (announced : UInt32) :
    download.data.length ≤ (download.total.getD announced).toNat := by
  cases underway with
  | start => exact Nat.zero_le _
  | further assembled more => exact Nat.le_of_lt more

theorem Underway.length_lt (underway : Underway serde peer asked download) :
    download.data.length < sectionMax := by
  cases underway with
  | start => decide
  | further assembled more bounded => exact Nat.lt_trans more bounded

theorem Underway.step (underway : Underway serde peer asked download) :
    (∃ result, download.step serde (peer asked download.params) = .returned result ∧
      Whole serde peer [peer asked download.params] result) ∨
    ∃ next, download.step serde (peer asked download.params) = .again next ∧
      peer asked download.params ≠ .error .notFound ∧
      Underway serde peer (asked + 1) next ∧ download.data.length < next.data.length := by
  cases answered : peer asked download.params with
  | error e =>
      cases e with
      | notFound => exact .inl ⟨_, rfl, List.mem_singleton_self _⟩
      | denied | internal | versionMismatch | protocol =>
          exact .inl ⟨_, rfl, by simp [Whole]⟩
  | ok reply =>
      rw [Download.step]
      cases read : serde.fromSlice reply with
      | none => exact .inl ⟨_, rfl, by simp [Whole]⟩
      | some chunk =>
          dsimp only
          cases checked : checkChunk chunk download.data.length
            (download.total.getD chunk.total) with
          | error e => exact .inl ⟨_, rfl, by simp [Whole]⟩
          | ok bytes =>
              have accepted := accepted_of_checkChunk checked
              have assembled := (underway.assembled chunk.total).chunk answered read accepted
              by_cases whole : (download.data ++ bytes).length =
                  (download.total.getD chunk.total).toNat
              · exact .inl ⟨_, if_pos whole, by simp, _, _, assembled, whole⟩
              · have before := underway.length_le chunk.total
                have fits := accepted.fits
                rw [List.length_append] at whole
                have nonempty : 0 < bytes.length := by
                  refine List.length_pos_iff.mpr fun empty => whole ?_
                  have none := accepted.progress empty
                  rw [empty, List.length_nil]
                  omega
                refine .inr ⟨_, if_neg ?_, by simp, .further assembled ?_ accepted.bounded, ?_⟩
                · rwa [List.length_append]
                · rw [List.length_append]
                  omega
                · rw [List.length_append]
                  omega

/-- Every turn brings the loop nearer to the most bytes a section holds. -/
theorem Underway.fetch (underway : Underway serde peer asked download) {fuel : ℕ}
    (enough : sectionMax - download.data.length ≤ fuel) :
    ∃ result, Remote.fetch serde peer fuel asked download = some result ∧
      Whole serde peer (answers serde peer fuel asked download) result := by
  induction fuel generalizing asked download with
  | zero =>
      have bounded := underway.length_lt
      omega
  | succ fuel inductionHypothesis =>
      rcases underway.step with ⟨result, returned, whole⟩ |
        ⟨next, again, found, further, longer⟩
      · rw [Remote.fetch, answers, returned]
        exact ⟨result, rfl, whole⟩
      · have bounded := underway.length_lt
        obtain ⟨result, fetched, whole⟩ := inductionHypothesis further (by omega)
        rw [Remote.fetch, answers, again]
        exact ⟨result, fetched, whole.cons found⟩

theorem postLink_whole (serde : Serde) (peer : Peer) :
    ∃ result, postLink serde peer sectionMax = some result ∧
      Whole serde peer (answers serde peer sectionMax 0 ⟨[], none⟩) result :=
  Underway.start.fetch (Nat.sub_le _ _)

variable {usize : Usize} {parsed : Section} {written : Bytes}

theorem written_lt {bytes : Bytes} (isSection : BuildInfo.parse usize bytes = some (.ok parsed))
    (isWritten : parsed.postLink usize = .written written) : written.length < sectionMax := by
  have inside := BuildInfo.length_of_postLink isWritten
  have small := BuildInfo.length_of_parse isSection
  have header : 0 < BuildInfo.headerLen := by decide
  omega

theorem u32OfU64_ofNat {n : ℕ} (small : n < sectionMax) :
    u32OfU64 n.toUInt64 = some n.toUInt32 := by
  have bound : sectionMax = 65536 := rfl
  have size : UInt64.size = 2 ^ 64 := rfl
  have value : n.toUInt64.toNat = n := UInt64.toNat_ofNat_of_lt' (by omega)
  rw [u32OfU64, value, if_pos (by omega)]
  exact congrArg some (UInt32.toNat_inj.mp (by simp))

theorem toNat_toUInt32 {n : ℕ} (small : n < sectionMax) : n.toUInt32.toNat = n := by
  have bound : sectionMax = 65536 := rfl
  have size : UInt32.size = 2 ^ 32 := rfl
  exact UInt32.toNat_ofNat_of_lt' (by omega)

theorem postLinkParams_params {data : Bytes} (small : data.length < sectionMax)
    (total : Option UInt32) :
    postLinkParams serde (Download.params ⟨data, total⟩) =
      .ok (data.length.toUInt32, some postLinkChunkMax) := by
  have offset : field serde (Download.params ⟨data, total⟩) "offset" =
      .ok (some data.length.toUInt32) := by
    have read : (serde.asU64 (toString data.length.toUInt64)).bind u32OfU64 =
        some data.length.toUInt32 := by
      rw [serde.asU64_toString, Option.bind_some, u32OfU64_ofNat small]
    simp [field, Download.params, Value.get, read]
  have len : field serde (Download.params ⟨data, total⟩) "len" =
      .ok (some postLinkChunkMax) := by
    have read : (serde.asU64 (toString postLinkChunkMax.toUInt64)).bind u32OfU64 =
        some postLinkChunkMax := by
      rw [serde.asU64_toString]
      rfl
    simp [field, Download.params, Value.get, List.lookup_cons, read]
  change (field serde (Download.params ⟨data, total⟩) "offset" >>= fun offset =>
    field serde (Download.params ⟨data, total⟩) "len" >>= fun len =>
      pure (offset.getD 0, len)) = _
  rw [offset, len]
  rfl

def chunkAt (written : Bytes) (offset : ℕ) : PostLinkChunk :=
  ⟨offset.toUInt32, written.length.toUInt32,
    hex ((written.drop offset).take postLinkChunkMax.toNat)⟩

theorem postLinkReply_eq (serde : Serde) (isWritten : parsed.postLink usize = .written written)
    (bounded : written.length < sectionMax) {data : Bytes} (held : data.length ≤ written.length)
    (total : Option UInt32) :
    postLinkReply serde usize (some parsed) (Download.params ⟨data, total⟩) =
      .ok (serde.toVec (chunkAt written data.length)) := by
  have small : data.length < sectionMax := Nat.lt_of_le_of_lt held bounded
  have start : min (usize.cast data.length.toUInt32.toNat) written.length = data.length := by
    rw [toNat_toUInt32 small, usize.cast_of_le (Nat.le_of_lt small), Nat.min_eq_left held]
  have len : usize.cast postLinkChunkMax.toNat = postLinkChunkMax.toNat :=
    usize.cast_of_le (by decide)
  have taken : (written.drop data.length).take
      (min (data.length + postLinkChunkMax.toNat) written.length - data.length) =
        (written.drop data.length).take postLinkChunkMax.toNat := by
    rw [List.take_eq_take_iff, List.length_drop]
    omega
  have reply : postLinkChunkReply serde usize (some parsed) (Download.params ⟨data, total⟩) =
      .ok (serde.toVec (chunkAt written data.length)) := by
    have least : min postLinkChunkMax postLinkChunkMax = postLinkChunkMax := rfl
    rw [postLinkChunkReply, postLinkParams_params small]
    dsimp only [Bind.bind, Except.bind]
    rw [Option.map_some, isWritten]
    dsimp only [Option.getD_some]
    rw [least, start, len, taken]
    rfl
  rw [postLinkReply, reply]

/-- A download that has the first part of the written bytes gets the next. -/
theorem accepted_chunkAt (bounded : written.length < sectionMax) {offset : ℕ}
    (held : offset ≤ written.length) :
    Accepted (chunkAt written offset) offset written.length.toUInt32
      ((written.drop offset).take postLinkChunkMax.toNat) where
  bounded := by rwa [toNat_toUInt32 bounded]
  announced := rfl
  placed := toNat_toUInt32 (Nat.lt_of_le_of_lt held bounded)
  short := by
    rw [chunkAt, Hex.length_utf8_hex, List.length_take]
    omega
  decoded := Hex.unhexPairs_hex _
  fits := by
    rw [toNat_toUInt32 bounded, List.length_take, List.length_drop]
    omega
  progress empty := by
    have positive : 0 < postLinkChunkMax.toNat := by decide
    have short := congrArg List.length empty
    rw [List.length_take, List.length_drop, List.length_nil] at short
    rw [toNat_toUInt32 bounded]
    omega

/-- The first bytes and the next chunk are the first bytes up to its end. -/
theorem take_append_chunk (offset : ℕ) :
    written.take offset ++ (written.drop offset).take postLinkChunkMax.toNat =
      written.take (offset + postLinkChunkMax.toNat) := by
  rw [List.take_add]

theorem fetch_written (serde : Serde) (isWritten : parsed.postLink usize = .written written)
    (bounded : written.length < sectionMax) {fuel asked offset : ℕ} {total : Option UInt32}
    (held : offset ≤ written.length) (sameTotal : total.getD written.length.toUInt32 =
      written.length.toUInt32) (enough : written.length - offset < fuel) :
    Remote.fetch serde (fun _ params => postLinkReply serde usize (some parsed) params) fuel asked
      ⟨written.take offset, total⟩ = some (.ok (some written)) := by
  induction fuel generalizing asked offset total with
  | zero => omega
  | succ fuel inductionHypothesis =>
      have length : (written.take offset).length = offset := List.length_take_of_le held
      have read : serde.fromSlice (serde.toVec (chunkAt written offset)) =
          some (chunkAt written offset) := serde.fromSlice_toVec _ (Hex.hex_isPlain _)
      have whole := toNat_toUInt32 bounded
      have positive : 0 < postLinkChunkMax.toNat := by decide
      have announced : total.getD (chunkAt written offset).total = written.length.toUInt32 :=
        sameTotal
      have checked := checkChunk_ok (accepted_chunkAt bounded held)
      have answer := postLinkReply_eq serde isWritten bounded (by rwa [length]) total
      rw [length] at answer
      rw [Remote.fetch, answer, Download.step]
      simp only [read, announced, length, checked, take_append_chunk, List.length_take, whole]
      by_cases last : written.length ≤ offset + postLinkChunkMax.toNat
      · rw [if_pos (Nat.min_eq_right last), List.take_of_length_le last]
      · rw [if_neg (by omega)]
        exact inductionHypothesis (Nat.le_of_not_le last) rfl (by omega)

/-- The loop ends against any peer, whole or with a call answered `not_found`; against a server that
holds a section with written data it returns the data. -/
theorem post_link_reassembles (serde : Serde) :
    (∀ usize bytes parsed written, BuildInfo.parse usize bytes = some (.ok parsed) →
      parsed.postLink usize = .written written →
      postLink serde (fun _ params => postLinkReply serde usize (some parsed) params) sectionMax =
        some (.ok (some written))) ∧
    ∀ peer, ∃ result, postLink serde peer sectionMax = some result ∧
      Whole serde peer (answers serde peer sectionMax 0 ⟨[], none⟩) result := by
  refine ⟨fun usize bytes parsed written isSection isWritten => ?_, postLink_whole serde⟩
  have bounded := written_lt isSection isWritten
  exact fetch_written serde isWritten bounded (Nat.zero_le _) rfl (by omega)

open Session.Aimx.SerdeJson (readU64 readU64_decimal escaped lendStr lendStr_escaped)

def chunkMembers (chunk : PostLinkChunk) : List (String × Bytes) :=
  [("offset", Json.decimal chunk.offset.toNat), ("total", Json.decimal chunk.total.toNat),
    ("data", escaped chunk.data)]

def readChunk (bytes : Bytes) : Option PostLinkChunk := do
  let members ← Json.readObject bytes
  let offset ← ((← members.find? (·.1 == "offset")).2 |> readU64) >>= u32OfU64
  let total ← ((← members.find? (·.1 == "total")).2 |> readU64) >>= u32OfU64
  let data ← (← members.find? (·.1 == "data")).2 |> lendStr
  return ⟨offset, total, data⟩

theorem readU64_decimal_u32 (n : UInt32) :
    (readU64 (Json.decimal n.toNat)).bind u32OfU64 = some n := by
  have bound := n.toNat_lt
  have wide : n.toUInt64.toNat = n.toNat := by simp
  rw [← wide, readU64_decimal, Option.bind_some, u32OfU64, if_pos (by rw [wide]; exact bound)]
  exact congrArg some (UInt32.toNat_inj.mp (by simp))

theorem readChunk_objectText {chunk : PostLinkChunk} (plain : IsPlain chunk.data) :
    readChunk (Json.objectText (chunkMembers chunk)) = some chunk := by
  have keys : IsPlain "offset" ∧ IsPlain "total" ∧ IsPlain "data" := by decide +kernel
  have read : Json.readObject (Json.objectText (chunkMembers chunk)) =
      some (chunkMembers chunk) := by
    refine Json.readObject_objectText fun m mem => ?_
    simp only [chunkMembers, List.mem_cons, List.not_mem_nil, or_false] at mem
    rcases mem with rfl | rfl | rfl
    · exact ⟨keys.1, Json.decimal_value _⟩
    · exact ⟨keys.2.1, Json.decimal_value _⟩
    · exact ⟨keys.2.2, .string (Session.Aimx.SerdeJson.isStringBody_escaped _)⟩
  have offset := readU64_decimal_u32 chunk.offset
  have total := readU64_decimal_u32 chunk.total
  have data : lendStr (escaped chunk.data) = some chunk.data := by
    rw [lendStr_escaped, if_pos plain]
  rw [readChunk, read]
  simp [chunkMembers, offset, total, data]

def asU64 (text : String) : Option UInt64 :=
  if text.toList ≠ [] ∧ text.toList.all (·.isDigit) ∧
    Nat.ofDigitChars 10 text.toList 0 < 2 ^ 64 then
    some (Nat.ofDigitChars 10 text.toList 0).toUInt64
  else none

theorem asU64_toString (n : UInt64) : asU64 (toString n) = some n := by
  have text : (toString n).toList = Nat.toDigits 10 n.toNat := Nat.toList_repr
  have digits : (Nat.toDigits 10 n.toNat).all (·.isDigit) = true :=
    List.all_eq_true.mpr fun c mem => Nat.isDigit_of_mem_toDigits (by omega) (by omega) mem
  rw [asU64, text, Nat.ofDigitChars_ten_toDigits,
    if_pos ⟨Nat.toDigits_ne_nil, digits, n.toNat_lt⟩]
  exact congrArg some UInt64.ofNat_toNat

def reference : Serde where
  asU64 := asU64
  toVec chunk := Json.objectText (chunkMembers chunk)
  fromSlice := readChunk
  asU64_toString := asU64_toString
  fromSlice_toVec _ := readChunk_objectText

def wideUsize : Usize := ⟨65536, by decide⟩

/-- A section with 1500 written bytes is read from a server that holds it, in two chunks. -/
theorem post_link_reassembles_two_chunks :
    ∃ parsed, postLink reference
      (fun _ params => postLinkReply reference wideUsize (some parsed) params) sectionMax =
        some (.ok (some (List.replicate 1500 7))) := by
  have encodes : (BuildInfo.encode wideUsize [0x7b, 0x7d] 1504).any (·.isOk) = true := by
    decide +kernel
  obtain ⟨result, encoded, ok⟩ := (Option.any_eq_true _ _).mp encodes
  cases result with
  | error e => cases ok
  | ok image =>
      have length : 4 + (List.replicate 1500 (7 : UInt8)).length + ([] : Bytes).length = 1504 := by
        rw [List.length_replicate, List.length_nil]
      obtain ⟨parsed, isSection, -, isWritten⟩ := (BuildInfo.sectionContract wideUsize).written
        [0x7b, 0x7d] 1504 image (List.replicate 1500 7) [] [] encoded length
      exact ⟨parsed, (post_link_reassembles reference).1 _ _ parsed _ isSection isWritten⟩

/-- A peer that answers with the first chunk of some bytes, and then has no data. -/
def leaving (written : Bytes) : Peer := fun asked _ =>
  if asked = 0 then .ok (reference.toVec (chunkAt written 0)) else .error .notFound

theorem fetch_leaving (bounded : written.length < sectionMax)
    (more : postLinkChunkMax.toNat < written.length) (fuel : ℕ) :
    Download.step reference ⟨[], none⟩ (leaving written 0 (Download.params ⟨[], none⟩)) =
        .again ⟨written.take postLinkChunkMax.toNat, some written.length.toUInt32⟩ ∧
      fetch reference (leaving written) (fuel + 1 + 1) 0 ⟨[], none⟩ = some (.ok none) := by
  have checked := checkChunk_ok (accepted_chunkAt bounded (Nat.zero_le _))
  have read : reference.fromSlice (reference.toVec (chunkAt written 0)) =
      some (chunkAt written 0) :=
    reference.fromSlice_toVec _ (Hex.hex_isPlain _)
  have total : (chunkAt written 0).total = written.length.toUInt32 := rfl
  have short : (written.take postLinkChunkMax.toNat).length ≠ written.length.toUInt32.toNat := by
    rw [toNat_toUInt32 bounded, List.length_take]
    omega
  have first : Download.step reference ⟨[], none⟩
    (leaving written 0 (Download.params ⟨[], none⟩)) =
      .again ⟨written.take postLinkChunkMax.toNat, some written.length.toUInt32⟩ := by
    rw [leaving, if_pos rfl, Download.step]
    simp only [read, total, Option.getD_none, List.length_nil, checked, List.nil_append,
      List.drop_zero]
    exact if_neg short
  have second (download : Download) :
      download.step reference (leaving written (0 + 1) download.params) =
        .returned (.ok none) := rfl
  refine ⟨first, ?_⟩
  rw [fetch, first]
  dsimp only
  rw [fetch, second]

/-- After the first chunk, 1024 of 2000 bytes, a download ends with nothing and no error. -/
theorem post_link_abandoned :
    Download.step reference ⟨[], none⟩
        (leaving (List.replicate 2000 7) 0 (Download.params ⟨[], none⟩)) =
        .again ⟨(List.replicate 2000 7).take 1024, some 2000⟩ ∧
      postLink reference (leaving (List.replicate 2000 7)) sectionMax = some (.ok none) := by
  have long : (List.replicate 2000 (7 : UInt8)).length = 2000 := List.length_replicate
  have announced : (2000 : ℕ).toUInt32 = 2000 := rfl
  have chunk : postLinkChunkMax.toNat = 1024 := rfl
  have fetched := @fetch_leaving (List.replicate 2000 7) (by rw [long]; decide)
    (by rw [long]; decide) 65534
  rw [long, announced, chunk] at fetched
  exact fetched

end AimDb.Remote
