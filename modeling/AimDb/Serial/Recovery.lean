import AimDb.Serial.Framing

/-!
# Framing recovers after noise

Draining a buffer is settled delimiter by delimiter.  Whatever came before a
delimiter, the bytes after it are read as if the stream began there, so the
frames of a clean stream come out whole however it is cut into chunks.
-/

namespace AimDb.Serial

open AimDb.Framing
open AimDb.Json (Bytes)

namespace FrameAccumulator

variable {cobs : Cobs} {acc : FrameAccumulator}

theorem bufferInduction {holds : FrameAccumulator → Prop}
    (free : ∀ acc, DELIM ∉ acc.buf → holds acc)
    (delimited : ∀ acc encoded rest, cut DELIM acc.buf = some (encoded, rest) →
      holds { acc with buf := rest, resyncing := false } → holds acc)
    (acc : FrameAccumulator) : holds acc := by
  induction size : acc.buf.length using Nat.strong_induction_on generalizing acc with
  | _ size inductionHypothesis =>
      cases split : cut DELIM acc.buf with
      | none => exact free acc (cut_eq_none_iff.mp split)
      | some pieces =>
          apply delimited acc pieces.1 pieces.2 split
          apply inductionHypothesis pieces.2.length _ _ rfl
          rw [← size]
          exact length_of_cut split

def handed (cobs : Cobs) (resyncing : Bool) (encoded : Bytes) : List (Except FrameError Bytes) :=
  if resyncing ∨ encoded = [] then []
  else
    match cobs.decode encoded with
    | some frame => [.ok frame]
    | none => [.error ⟨⟩]

theorem drain_of_none {after : FrameAccumulator} (called : nextFrame cobs acc = (none, after)) :
    drain cobs acc = ([], after) := by
  rw [drain]
  split
  · rename_i found
    rw [called] at found
    rw [(Prod.mk.inj found).2]
  · rename_i found
    rw [called] at found
    cases (Prod.mk.inj found).1

theorem drain_of_some {result : Except FrameError Bytes} {after : FrameAccumulator}
    (called : nextFrame cobs acc = (some result, after)) :
    drain cobs acc = (result :: (drain cobs after).1, (drain cobs after).2) := by
  rw [drain]
  split
  · rename_i found
    rw [called] at found
    cases (Prod.mk.inj found).1
  · rename_i found
    rw [called] at found
    obtain ⟨same, rfl⟩ := Prod.mk.inj found
    rw [Option.some.inj same]

theorem drain_congr {other : FrameAccumulator} (same : nextFrame cobs acc = nextFrame cobs other) :
    drain cobs acc = drain cobs other := by
  cases called : nextFrame cobs acc with
  | mk result after =>
      have calledOther := same.symm.trans called
      cases result with
      | none => rw [drain_of_none called, drain_of_none calledOther]
      | some result => rw [drain_of_some called, drain_of_some calledOther]

theorem nextFrame_of_cut {encoded rest : Bytes} (split : cut DELIM acc.buf = some (encoded, rest)) :
    nextFrame cobs acc =
      match handed cobs acc.resyncing encoded with
      | [] => nextFrame cobs { acc with buf := rest, resyncing := false }
      | result :: _ => (some result, { acc with buf := rest, resyncing := false }) := by
  obtain ⟨buf, resyncing, maxFrame⟩ := acc
  rw [nextFrame]
  split
  · rename_i found
    rw [split] at found
    cases found
  · rename_i found
    rw [split] at found
    obtain ⟨rfl, rfl⟩ := Prod.mk.inj (Option.some.inj found)
    cases resyncing with
    | true => simp [handed]
    | false =>
        by_cases empty : encoded = []
        · simp [handed, empty]
        · cases decoded : cobs.decode encoded <;> simp [handed, empty, decoded]

theorem drain_of_cut {encoded rest : Bytes} (split : cut DELIM acc.buf = some (encoded, rest)) :
    drain cobs acc =
      (handed cobs acc.resyncing encoded
          ++ (drain cobs { acc with buf := rest, resyncing := false }).1,
        (drain cobs { acc with buf := rest, resyncing := false }).2) := by
  have called := @nextFrame_of_cut cobs acc _ _ split
  rcases pieces : handed cobs acc.resyncing encoded with _ | ⟨result, more⟩
  · rw [pieces] at called
    rw [drain_congr called]
    rfl
  · have alone : more = [] := by
      rw [handed] at pieces
      split at pieces
      · exact nomatch pieces
      · split at pieces <;> exact (List.cons.inj pieces).2.symm
    rw [pieces] at called
    rw [drain_of_some called, alone]
    rfl

theorem drain_of_free (free : DELIM ∉ acc.buf) :
    drain cobs acc =
      if acc.resyncing then ([], { acc with buf := [] })
      else if acc.maxFrame < acc.buf.length then
        ([.error ⟨⟩], { acc with buf := [], resyncing := true })
      else ([], acc) := by
  have none_left := cut_eq_none_iff.mpr free
  have called : nextFrame cobs acc =
      if acc.resyncing then (none, { acc with buf := [] })
      else if acc.maxFrame < acc.buf.length then
        (some (.error ⟨⟩), { acc with buf := [], resyncing := true })
      else (none, acc) := by
    rw [nextFrame]
    split
    · rfl
    · rename_i found
      rw [none_left] at found
      cases found
  split_ifs at called ⊢ with resyncing long
  · exact drain_of_none called
  · have emptied : nextFrame cobs { acc with buf := [], resyncing := true } =
        (none, { acc with buf := [], resyncing := true }) := by
      rw [nextFrame]
      rfl
    rw [drain_of_some called, drain_of_none emptied]
  · exact drain_of_none called

theorem drain_maxFrame (acc : FrameAccumulator) : (drain cobs acc).2.maxFrame = acc.maxFrame := by
  induction acc using bufferInduction with
  | free acc free =>
      rw [drain_of_free free]
      split_ifs <;> rfl
  | delimited acc encoded rest split inductionHypothesis =>
      rw [drain_of_cut split]
      exact inductionHypothesis

theorem drain_bounded (acc : FrameAccumulator) :
    (drain cobs acc).2.buf.length ≤ acc.maxFrame := by
  induction acc using bufferInduction with
  | free acc free =>
      rw [drain_of_free free]
      split_ifs <;> simp
      omega
  | delimited acc encoded rest split inductionHypothesis =>
      rw [drain_of_cut split]
      exact inductionHypothesis

theorem drain_free (acc : FrameAccumulator) : DELIM ∉ (drain cobs acc).2.buf := by
  induction acc using bufferInduction with
  | free acc free =>
      rw [drain_of_free free]
      split_ifs <;> simp [free]
  | delimited acc encoded rest split inductionHypothesis =>
      rw [drain_of_cut split]
      exact inductionHypothesis

/-- A sequence of calls, the last of which has nothing to hand out. -/
inductive Drained (cobs : Cobs) :
    FrameAccumulator → List (Except FrameError Bytes) → FrameAccumulator → Prop
  | stop {acc after} : nextFrame cobs acc = (none, after) → Drained cobs acc [] after
  | more {acc result next results after} : nextFrame cobs acc = (some result, next) →
      Drained cobs next results after → Drained cobs acc (result :: results) after

theorem drained_drain (acc : FrameAccumulator) :
    Drained cobs acc (drain cobs acc).1 (drain cobs acc).2 ∧
      (drain cobs acc).1.length ≤ acc.buf.length := by
  fun_induction drain cobs acc with
  | case1 acc after called => exact ⟨.stop called, by simp⟩
  | case2 acc result after called drained inductionHypothesis =>
      obtain ⟨ends, short⟩ := inductionHypothesis
      have shorter := nextFrame_shrinks called
      refine ⟨.more called ends, ?_⟩
      change (drain cobs after).1.length + 1 ≤ _
      omega

theorem drain_noise {noise rest : Bytes} (stream : acc.buf = noise ++ DELIM :: rest) :
    ∃ garbage, drain cobs acc =
      (garbage ++ (drain cobs { acc with buf := rest, resyncing := false }).1,
        (drain cobs { acc with buf := rest, resyncing := false }).2) := by
  induction acc using bufferInduction generalizing noise with
  | free acc free => exact absurd (by simp [stream]) free
  | delimited acc encoded tail split inductionHypothesis =>
      obtain ⟨shape, free⟩ := cut_eq_some_iff.mp split
      rw [drain_of_cut split]
      rcases List.append_eq_append_iff.mp (stream.symm.trans shape) with
        ⟨more, rfl, same⟩ | ⟨more, rfl, same⟩
      · cases more with
        | nil =>
            obtain ⟨-, rfl⟩ := List.cons.inj same
            exact ⟨_, rfl⟩
        | cons b more =>
            obtain ⟨rfl, -⟩ := List.cons.inj same
            exact absurd (by simp) free
      · cases more with
        | nil =>
            obtain ⟨-, rfl⟩ := List.cons.inj same
            exact ⟨_, rfl⟩
        | cons b more =>
            obtain ⟨-, rfl⟩ := List.cons.inj same
            obtain ⟨garbage, drained⟩ := @inductionHypothesis more rfl
            exact ⟨handed cobs acc.resyncing encoded ++ garbage, by rw [drained]; simp⟩

def clean (cobs : Cobs) (payloads : List Bytes) : Bytes :=
  payloads.flatMap fun payload => encodeFrame cobs payload []

theorem clean_cons (payload : Bytes) (payloads : List Bytes) :
    clean cobs (payload :: payloads) =
      cobs.encode payload ++ DELIM :: clean cobs payloads := by
  simp [clean, encodeFrame]

theorem handed_encode (payload : Bytes) :
    handed cobs false (cobs.encode payload) = [.ok payload] := by
  simp [handed, cobs.encode_ne_nil, cobs.decode_encode]

theorem drain_clean {payloads : List Bytes} {tail : Bytes} (aligned : acc.resyncing = false)
    (stream : acc.buf ++ tail = clean cobs payloads)
    (fit : ∀ payload ∈ payloads, (cobs.encode payload).length ≤ acc.maxFrame) :
    ∃ done left after, payloads = done ++ left ∧
      drain cobs acc = (done.map .ok, after) ∧ after.resyncing = false ∧
      after.buf ++ tail = clean cobs left := by
  induction payloads generalizing acc with
  | nil =>
      have empty : acc.buf = [] := (List.append_eq_nil_iff.mp stream).1
      refine ⟨[], [], acc, rfl, ?_, aligned, stream⟩
      rw [drain_of_free (by simp [empty])]
      simp [aligned, empty]
  | cons payload payloads inductionHypothesis =>
      rw [clean_cons] at stream
      rcases List.append_eq_append_iff.mp stream with
        ⟨more, whole, rest⟩ | ⟨more, whole, rest⟩
      · -- the first frame has not arrived whole
        have short := fit payload (by simp)
        have free : DELIM ∉ acc.buf := fun inside =>
          cobs.encode_free payload (by rw [whole]; exact List.mem_append_left _ inside)
        rw [whole, List.length_append] at short
        refine ⟨[], payload :: payloads, acc, rfl, ?_, aligned, ?_⟩
        · rw [drain_of_free free, if_neg (by simp [aligned]), if_neg (by omega)]
          rfl
        · rw [clean_cons, stream]
      · cases more with
        | nil =>
            have free : DELIM ∉ acc.buf := by
              rw [whole, List.append_nil]
              exact cobs.encode_free payload
            have short := fit payload (by simp)
            rw [List.append_nil] at whole
            refine ⟨[], payload :: payloads, acc, rfl, ?_, aligned, ?_⟩
            · rw [drain_of_free free, if_neg (by simp [aligned]), if_neg (by rw [whole]; omega)]
              rfl
            · rw [clean_cons, stream]
        | cons b more =>
            obtain ⟨rfl, following⟩ := List.cons.inj rest
            have split : cut DELIM acc.buf = some (cobs.encode payload, more) := by
              rw [whole]
              exact cut_append (cobs.encode_free payload) more
            obtain ⟨done, left, after, rfl, drained, realigned, remaining⟩ :=
              @inductionHypothesis { acc with buf := more, resyncing := false } rfl
                following.symm (fun other inside => fit other (by simp [inside]))
            refine ⟨payload :: done, left, after, rfl, ?_, realigned, remaining⟩
            rw [drain_of_cut split, drained, aligned, handed_encode]
            rfl

theorem receive_clean {payloads chunks : List Bytes} (aligned : acc.resyncing = false)
    (settled : DELIM ∉ acc.buf) (stream : acc.buf ++ chunks.flatten = clean cobs payloads)
    (fit : ∀ payload ∈ payloads, (cobs.encode payload).length ≤ acc.maxFrame) :
    (receive cobs acc chunks).1 = payloads.map .ok := by
  induction chunks generalizing acc payloads with
  | nil =>
      cases payloads with
      | nil => rfl
      | cons payload payloads =>
          rw [clean_cons, List.flatten_nil, List.append_nil] at stream
          exact absurd (by simp [stream]) settled
  | cons chunk chunks inductionHypothesis =>
      obtain ⟨done, left, after, rfl, drained, realigned, remaining⟩ :=
        @drain_clean cobs (acc.pushBytes chunk) payloads chunks.flatten aligned
          (by simpa [pushBytes] using stream) fit
      have cap := @drain_maxFrame cobs (acc.pushBytes chunk)
      have resettled := @drain_free cobs (acc.pushBytes chunk)
      rw [drained] at cap resettled
      rw [receive, drained, inductionHypothesis realigned resettled remaining]
      · simp
      · intro payload inside
        rw [cap]
        exact fit payload (List.mem_append_right _ inside)

theorem receive_noise {noise : Bytes} {payloads chunks : List Bytes} (settled : DELIM ∉ acc.buf)
    (stream : acc.buf ++ chunks.flatten = noise ++ DELIM :: clean cobs payloads)
    (fit : ∀ payload ∈ payloads, (cobs.encode payload).length ≤ acc.maxFrame) :
    ∃ garbage, (receive cobs acc chunks).1 = garbage ++ payloads.map .ok := by
  induction chunks generalizing acc noise with
  | nil =>
      rw [List.flatten_nil, List.append_nil] at stream
      exact absurd (by simp [stream]) settled
  | cons chunk chunks inductionHypothesis =>
      have cap := @drain_maxFrame cobs (acc.pushBytes chunk)
      have resettled := @drain_free cobs (acc.pushBytes chunk)
      rw [List.flatten_cons, ← List.append_assoc] at stream
      rcases List.append_eq_append_iff.mp stream with
        ⟨more, rfl, rest⟩ | ⟨more, whole, rest⟩
      · -- the chunk ends inside the noise
        obtain ⟨garbage, received⟩ := @inductionHypothesis (drain cobs (acc.pushBytes chunk)).2
          ((drain cobs (acc.pushBytes chunk)).2.buf ++ more) resettled
          (by rw [rest, List.append_assoc]) (by rw [cap]; exact fit)
        exact ⟨(drain cobs (acc.pushBytes chunk)).1 ++ garbage, by simp [receive, received]⟩
      · cases more with
        | nil =>
            rw [List.append_nil] at whole
            obtain ⟨garbage, received⟩ :=
              @inductionHypothesis (drain cobs (acc.pushBytes chunk)).2
              (drain cobs (acc.pushBytes chunk)).2.buf resettled (by rw [rest]; rfl)
              (by rw [cap]; exact fit)
            exact ⟨(drain cobs (acc.pushBytes chunk)).1 ++ garbage, by simp [receive, received]⟩
        | cons b more =>
            obtain ⟨rfl, following⟩ := List.cons.inj rest
            obtain ⟨garbage, drained⟩ := @drain_noise cobs (acc.pushBytes chunk) _ _ whole
            obtain ⟨done, left, after, rfl, cleaned, realigned, remaining⟩ :=
              @drain_clean cobs { acc.pushBytes chunk with buf := more, resyncing := false } _
                chunks.flatten rfl following.symm fit
            rw [cleaned] at drained
            rw [drained] at cap resettled
            refine ⟨garbage, ?_⟩
            rw [receive, drained, receive_clean realigned resettled remaining]
            · simp
            · intro payload inside
              rw [cap]
              exact fit payload (List.mem_append_right _ inside)

theorem receive_bounded (chunks : List Bytes) (small : acc.buf.length ≤ acc.maxFrame) :
    (receive cobs acc chunks).2.buf.length ≤ acc.maxFrame := by
  induction chunks generalizing acc with
  | nil => exact small
  | cons chunk chunks inductionHypothesis =>
      have cap := @drain_maxFrame cobs (acc.pushBytes chunk)
      have drained := @drain_bounded cobs (acc.pushBytes chunk)
      have received := inductionHypothesis (by rw [cap]; exact drained)
      rw [cap] at received
      exact received

/-- What framing keeps for a stream cut into `chunks` that ends in `payloads`. -/
structure Recovers (cobs : Cobs) (maxFrame : ℕ) (chunks payloads : List Bytes) : Prop where
  frames : payloads <:+ FrameAccumulator.frames (receive cobs (withMaxFrame maxFrame) chunks).1
  /-- Draining any accumulator comes to a call that hands nothing out. -/
  terminates : ∀ acc, Drained cobs acc (drain cobs acc).1 (drain cobs acc).2 ∧
    (drain cobs acc).1.length ≤ acc.buf.length
  bounded : ∀ front, front <+: chunks →
    (receive cobs (withMaxFrame maxFrame) front).2.buf.length ≤ maxFrame

theorem frames_ok (payloads : List Bytes) : frames (payloads.map .ok) = payloads := by
  simp [frames, List.filterMap_map]

/-- Any noise, a delimiter and some frames, in any chunks: the frames come out. -/
theorem recovers_of_chunks {noise : Bytes} {payloads chunks : List Bytes} {maxFrame : ℕ}
    (fit : ∀ payload ∈ payloads, (cobs.encode payload).length ≤ maxFrame)
    (stream : chunks.flatten =
      noise ++ DELIM :: payloads.flatMap fun payload => encodeFrame cobs payload []) :
    Recovers cobs maxFrame chunks payloads := by
  refine ⟨?_, drained_drain, fun front _ => receive_bounded front (by simp [withMaxFrame])⟩
  obtain ⟨garbage, received⟩ := @receive_noise cobs (withMaxFrame maxFrame) _ _ _
    (by simp [withMaxFrame]) (by rw [stream]; rfl) fit
  refine ⟨frames garbage, ?_⟩
  have split : frames (garbage ++ payloads.map .ok) = frames garbage ++ frames (payloads.map .ok) :=
    List.filterMap_append
  rw [received, split, frames_ok]

theorem recovers_of_chunks_split :
    Recovers Cobs.reference 4 [[7, 9, 9, 9, 9, 9], [9, 0, 3, 1], [2, 0], [1, 0]] [[1, 2], []] :=
  @recovers_of_chunks Cobs.reference [7, 9, 9, 9, 9, 9, 9] _ _ 4 (by decide) (by decide)

end FrameAccumulator

end AimDb.Serial
