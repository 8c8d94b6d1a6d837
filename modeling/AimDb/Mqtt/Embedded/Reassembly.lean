import AimDb.Mqtt.Embedded.PacketReader

/-!
# Packets are reassembled from any chunks

The fixed header is a measure of the stream.  With a chunk of slack beside the
largest packet, what is left over never keeps the next chunk out.
-/

namespace AimDb.Mqtt.Embedded

open AimDb.Framing
open AimDb.Json (Bytes)

variable {mqtt : MountainMqtt} {capacity : ℕ}

/-- What `framed_len` answers, once it does not wait for more. -/
def look (mqtt : MountainMqtt) (capacity : ℕ) (stream : Bytes) :
    Option (Except PacketReadError ℕ) :=
  match framedLen mqtt capacity stream with
  | .error error => some (.error error)
  | .ok none => none
  | .ok (some total) => some (.ok total)

theorem framedLen_eq_some {stream : Bytes} {total : ℕ}
    (framed : framedLen mqtt capacity stream = .ok (some total)) :
    ∃ pos remaining, fieldEnd stream 1 = .ok (some pos) ∧ total = pos + remaining ∧
      total ≤ capacity ∧ total ≤ stream.length := by
  cases stream with
  | nil => cases framed
  | cons first rest =>
      rw [framedLen] at framed
      split at framed
      · split at framed
        · cases framed
        · cases framed
        · next pos found =>
          split at framed
          · cases framed
          · next remaining _ =>
            dsimp only at framed
            split_ifs at framed with tooMuch waiting
            · cases framed
            · cases framed
              exact ⟨pos, remaining, found, rfl, Nat.le_of_not_lt tooMuch,
                Nat.le_of_not_lt waiting⟩
      · cases framed

theorem framedLen_bounds {stream : Bytes} {total : ℕ}
    (framed : framedLen mqtt capacity stream = .ok (some total)) :
    0 < total ∧ total ≤ stream.length := by
  obtain ⟨pos, remaining, found, rfl, -, inside⟩ := framedLen_eq_some framed
  obtain ⟨later, -⟩ := fieldEnd_bounds found
  exact ⟨by omega, inside⟩

theorem framedLen_append {stream : Bytes} (more : Bytes)
    (settled : framedLen mqtt capacity stream ≠ .ok none) :
    framedLen mqtt capacity (stream ++ more) = framedLen mqtt capacity stream := by
  cases stream with
  | nil => exact absurd rfl settled
  | cons first rest =>
      rw [List.cons_append]
      simp only [framedLen] at settled ⊢
      by_cases valid : mqtt.isValidFirstHeaderByte first
      · simp only [if_pos valid] at settled ⊢
        have ended : fieldEnd (first :: rest) 1 ≠ .ok none := by
          intro waiting
          rw [waiting] at settled
          exact settled rfl
        have same := fieldEnd_append more ended
        rw [List.cons_append] at same
        rw [same]
        cases found : fieldEnd (first :: rest) 1 with
        | error error => rfl
        | ok seen =>
            cases seen with
            | none => exact absurd found ended
            | some pos =>
                have field : (first :: (rest ++ more)).take pos = (first :: rest).take pos :=
                  List.take_append_of_le_length (fieldEnd_bounds found).2
                simp only [found, field] at settled ⊢
                cases decoded : mqtt.getVariableU32 (((first :: rest).take pos).drop 1) with
                | error error => rfl
                | ok remaining =>
                    simp only [decoded] at settled ⊢
                    rw [← List.cons_append, List.length_append]
                    split_ifs at settled ⊢ with tooMuch
                    all_goals first | rfl | omega | exact absurd rfl settled
      · simp only [if_neg valid]

theorem look_eq_ok_iff {stream : Bytes} {total : ℕ} :
    look mqtt capacity stream = some (.ok total) ↔
      framedLen mqtt capacity stream = .ok (some total) := by
  rw [look]
  split <;> simp_all

theorem look_eq_error_iff {stream : Bytes} {error : PacketReadError} :
    look mqtt capacity stream = some (.error error) ↔
      framedLen mqtt capacity stream = .error error := by
  rw [look]
  split <;> simp_all

theorem look_eq_none_iff {stream : Bytes} :
    look mqtt capacity stream = none ↔ framedLen mqtt capacity stream = .ok none := by
  rw [look]
  split <;> simp_all

def fixedHeader (mqtt : MountainMqtt) (capacity : ℕ) : Measure UInt8 PacketReadError where
  look := look mqtt capacity
  idle := rfl
  inside := fun _ _ seen => framedLen_bounds (look_eq_ok_iff.mp seen)
  stable := by
    intro stream more seen looked
    have settled : framedLen mqtt capacity stream ≠ .ok none := by
      intro waiting
      rw [look_eq_none_iff.mpr waiting] at looked
      cases looked
    rw [look] at looked ⊢
    rwa [framedLen_append more settled]

namespace PacketReader

/-- Consume the packets at the head while there are any; their lengths, what is left,
and the error that ended it. -/
def drain (mqtt : MountainMqtt) (reader : PacketReader capacity) :
    List ℕ × PacketReader capacity × Option PacketReadError :=
  match _ : reader.framedLen mqtt with
  | .error error => ([], reader, some error)
  | .ok none => ([], reader, none)
  | .ok (some total) =>
      let drained := drain mqtt (reader.consume total)
      (total :: drained.1, drained.2)
termination_by reader.buffered.length
decreasing_by exact (fixedHeader mqtt capacity).length_drop_lt (look_eq_ok_iff.mpr ‹_›)

def receive (mqtt : MountainMqtt) (reader : PacketReader capacity) :
    List Bytes → List ℕ × PacketReader capacity × Option PacketReadError
  | [] => ([], reader, none)
  | chunk :: chunks =>
      match reader.feed chunk with
      | .error error => ([], reader, some error)
      | .ok fed =>
          match fed.drain mqtt with
          | (lengths, drained, some error) => (lengths, drained, some error)
          | (lengths, drained, none) =>
              let received := receive mqtt drained chunks
              (lengths ++ received.1, received.2)

/-- A sequence of calls that ends where nothing is complete, or in an error. -/
inductive Drained (mqtt : MountainMqtt) :
    PacketReader capacity → List ℕ → PacketReader capacity → Option PacketReadError → Prop
  | stop {reader} : reader.framedLen mqtt = .ok none → Drained mqtt reader [] reader none
  | fail {reader error} : reader.framedLen mqtt = .error error →
      Drained mqtt reader [] reader (some error)
  | more {reader total lengths after error} : reader.framedLen mqtt = .ok (some total) →
      0 < total → total ≤ reader.buffered.length →
      Drained mqtt (reader.consume total) lengths after error →
      Drained mqtt reader (total :: lengths) after error

theorem drained_drain (mqtt : MountainMqtt) (reader : PacketReader capacity) :
    Drained mqtt reader (reader.drain mqtt).1 (reader.drain mqtt).2.1 (reader.drain mqtt).2.2 := by
  fun_induction drain mqtt reader with
  | case1 reader error framed => exact .fail framed
  | case2 reader framed => exact .stop framed
  | case3 reader total framed drained inductionHypothesis =>
      obtain ⟨positive, inside⟩ := framedLen_bounds framed
      exact .more framed positive inside inductionHypothesis

theorem drain_eq (mqtt : MountainMqtt) (reader : PacketReader capacity) :
    (reader.drain mqtt).1 =
        ((fixedHeader mqtt capacity).cut reader.buffered).pieces.map List.length ∧
      (reader.drain mqtt).2.1.buffered = ((fixedHeader mqtt capacity).cut reader.buffered).rest ∧
      (reader.drain mqtt).2.2 = ((fixedHeader mqtt capacity).cut reader.buffered).fault := by
  fun_induction drain mqtt reader with
  | case1 reader error framed =>
      rw [@Measure.cut_of_error _ _ (fixedHeader mqtt capacity) _ _ (look_eq_error_iff.mpr framed)]
      exact ⟨rfl, rfl, rfl⟩
  | case2 reader framed =>
      rw [@Measure.cut_of_none _ _ (fixedHeader mqtt capacity) _ (look_eq_none_iff.mpr framed)]
      exact ⟨rfl, rfl, rfl⟩
  | case3 reader total framed drained inductionHypothesis =>
      obtain ⟨lengths, rest, error⟩ := inductionHypothesis
      rw [@Measure.cut_of_ok _ _ (fixedHeader mqtt capacity) _ _ (look_eq_ok_iff.mpr ‹_›)]
      refine ⟨?_, rest, error⟩
      rw [List.map_cons, List.length_take_of_le (framedLen_bounds framed).2]
      exact congrArg _ lengths

end PacketReader

/-- A packet: a valid first byte, the remaining length in up to four bytes, and that
many bytes. -/
def IsPacket (mqtt : MountainMqtt) (packet : Bytes) : Prop :=
  ∃ first field body, packet = first :: (field ++ body) ∧ mqtt.isValidFirstHeaderByte first ∧
    VariableByteInteger field body.length ∧ field.length ≤ 4

theorem IsPacket.piece {packet : Bytes} (documented : mqtt.Documented)
    (isPacket : IsPacket mqtt packet) (short : packet.length ≤ capacity) :
    (fixedHeader mqtt capacity).Piece packet := by
  obtain ⟨first, field, body, rfl, valid, encoded, fourBytes⟩ := isPacket
  have ended : fieldEnd (first :: (field ++ body)) 1 = .ok (some (1 + field.length)) :=
    encoded.fieldEnd_eq (show [first].length + field.length ≤ 5 by simp; omega) body
  have taken : ((first :: (field ++ body)).take (1 + field.length)).drop 1 = field := by
    rw [Nat.add_comm, List.take_succ_cons, List.drop_succ_cons, List.drop_zero, List.take_left]
  have whole : (first :: (field ++ body)).length = 1 + field.length + body.length := by
    simp
    omega
  apply look_eq_ok_iff.mpr
  rw [framedLen, if_pos valid, ended]
  simp only [taken, documented.decodes field _ encoded fourBytes]
  rw [whole] at short ⊢
  rw [if_neg (by omega), if_neg (Nat.lt_irrefl _)]

namespace PacketReader

theorem feed_of_le {reader : PacketReader capacity} {chunk : Bytes}
    (room : reader.buffered.length + chunk.length ≤ capacity) :
    ∃ fed, reader.feed chunk = .ok fed ∧ fed.buffered = reader.buffered ++ chunk := by
  rw [feed, dif_neg (Nat.not_lt.mpr room)]
  exact ⟨_, rfl, rfl⟩

theorem receive_cons {reader fed : PacketReader capacity} {chunk : Bytes} {chunks : List Bytes}
    (feeding : reader.feed chunk = .ok fed) (quiet : (fed.drain mqtt).2.2 = none) :
    reader.receive mqtt (chunk :: chunks) =
      ((fed.drain mqtt).1 ++ ((fed.drain mqtt).2.1.receive mqtt chunks).1,
        ((fed.drain mqtt).2.1.receive mqtt chunks).2) := by
  rw [receive, feeding]
  cases taken : fed.drain mqtt with
  | mk lengths drained =>
      obtain ⟨after, error⟩ := drained
      rw [taken] at quiet
      obtain rfl : error = none := quiet
      simp only [taken]

theorem receive_packets {packets chunks : List Bytes} {missing : Bytes} {chunkLen : ℕ}
    (documented : mqtt.Documented) (valid : ∀ packet ∈ packets, IsPacket mqtt packet)
    (slack : ∀ packet ∈ packets, packet.length + chunkLen ≤ capacity)
    (small : ∀ chunk ∈ chunks, chunk.length ≤ chunkLen) {reader : PacketReader capacity}
    (settled : (fixedHeader mqtt capacity).look reader.buffered = none)
    (stream : reader.buffered ++ (chunks.flatten ++ missing) = packets.flatten) :
    ∃ done left, packets = done ++ left ∧
      (reader.receive mqtt chunks).1 = done.map List.length ∧
      (reader.receive mqtt chunks).2.2 = none ∧
      (reader.receive mqtt chunks).2.1.buffered ++ missing = left.flatten ∧
      ∀ packet ∈ left.head?, (reader.receive mqtt chunks).2.1.buffered.length <
        packet.length := by
  have whole : ∀ packet ∈ packets, (fixedHeader mqtt capacity).Piece packet := by
    intro packet inside
    have fits := slack packet inside
    exact (valid packet inside).piece documented (by omega)
  have unfinished : ∀ packet ∈ packets.head?, reader.buffered.length < packet.length := by
    obtain ⟨-, left, all, -, short⟩ := Measure.cut_front whole stream
    rw [Measure.cut_of_none settled] at all short
    rwa [all]
  induction chunks generalizing reader packets with
  | nil => exact ⟨[], packets, rfl, rfl, rfl, stream, unfinished⟩
  | cons chunk chunks inductionHypothesis =>
      rw [List.flatten_cons, List.append_assoc, ← List.append_assoc] at stream
      have room : reader.buffered.length + chunk.length ≤ capacity := by
        cases packets with
        | nil =>
            rw [List.flatten_nil, List.append_eq_nil_iff] at stream
            rw [← List.length_append, stream.1]
            exact Nat.zero_le _
        | cons packet packets =>
            have behind := unfinished packet rfl
            have fits := slack packet List.mem_cons_self
            have bound := small chunk List.mem_cons_self
            omega
      obtain ⟨fed, feeding, holds⟩ := feed_of_le room
      obtain ⟨lengths, rest, error⟩ := drain_eq mqtt fed
      obtain ⟨clear, left, all, kept, short⟩ := Measure.cut_front whole stream
      have idle := (fixedHeader mqtt capacity).look_rest (reader.buffered ++ chunk)
      rw [← holds] at clear all kept short idle
      rw [← rest] at kept short idle
      rw [clear] at idle error
      have among : ∀ packet ∈ left, packet ∈ packets := by
        intro packet inside
        rw [all]
        exact List.mem_append_right _ inside
      obtain ⟨done, others, rfl, reported, quiet, remaining, behind⟩ :=
        @inductionHypothesis left
        (fun packet inside => valid packet (among packet inside))
        (fun packet inside => slack packet (among packet inside))
        (fun other inside => small other (List.mem_cons_of_mem _ inside))
        (fed.drain mqtt).2.1 idle kept
          (fun packet inside => whole packet (among packet inside)) short
      refine ⟨((fixedHeader mqtt capacity).cut fed.buffered).pieces ++ done, others, ?_, ?_⟩
      · rw [all, List.append_assoc]
      · rw [receive_cons feeding error]
        refine ⟨?_, quiet, remaining, behind⟩
        rw [reported, lengths, List.map_append]

/-- What reassembly keeps for packets that leave a chunk of slack. -/
structure Reassembles (mqtt : MountainMqtt) (capacity : ℕ) (packets chunks : List Bytes)
    (missing : Bytes) : Prop where
  /-- The packets completed are reported by their lengths, in order and without an
  error, and what is buffered is the unfinished front of the rest. -/
  reported : ∃ done left, packets = done ++ left ∧
    ((new capacity).receive mqtt chunks).1 = done.map List.length ∧
    ((new capacity).receive mqtt chunks).2.2 = none ∧
    ((new capacity).receive mqtt chunks).2.1.buffered ++ missing = left.flatten ∧
    ∀ packet ∈ left.head?, ((new capacity).receive mqtt chunks).2.1.buffered.length <
      packet.length
  complete : missing = [] →
    ((new capacity).receive mqtt chunks).1 = packets.map List.length ∧
      ((new capacity).receive mqtt chunks).2.1.buffered = []
  terminates : ∀ reader : PacketReader capacity,
    Drained mqtt reader (reader.drain mqtt).1 (reader.drain mqtt).2.1 (reader.drain mqtt).2.2

/-- Packets that leave a chunk of slack, up to any point of any split into chunks. -/
theorem reassembles {packets chunks : List Bytes} {missing : Bytes} {chunkLen : ℕ}
    (documented : mqtt.Documented) (valid : ∀ packet ∈ packets, IsPacket mqtt packet)
    (slack : ∀ packet ∈ packets, packet.length + chunkLen ≤ capacity)
    (small : ∀ chunk ∈ chunks, chunk.length ≤ chunkLen)
    (stream : chunks.flatten ++ missing = packets.flatten) :
    Reassembles mqtt capacity packets chunks missing := by
  have received :=
    receive_packets documented valid slack small (show (fixedHeader mqtt capacity).look
    (new capacity).buffered = none from rfl) stream
  refine ⟨received, ?_, drained_drain mqtt⟩
  rintro rfl
  obtain ⟨done, left, rfl, reported, -, remaining, short⟩ := received
  rw [List.append_nil] at remaining
  cases left with
  | nil =>
      rw [List.append_nil]
      exact ⟨reported, remaining⟩
  | cons packet left =>
      have behind := short packet rfl
      rw [remaining, List.flatten_cons, List.length_append] at behind
      omega

end PacketReader

def variableU32 : Bytes → Except PacketReadError ℕ
  | [] => .error .other
  | byte :: rest =>
      if byte &&& 128 = 0 then .ok byte.toNat
      else (variableU32 rest).map fun value => (byte &&& 127).toNat + 128 * value

/-- Packet types 1 to 15; the low bits of a PUBLISH are its own, those of the others
are fixed. -/
def firstHeaderByte (byte : UInt8) : Bool :=
  match byte.toNat / 16 with
  | 0 => false
  | 3 => true
  | 6 | 8 | 10 => byte.toNat % 16 = 2
  | _ => byte.toNat % 16 = 0

def reference : MountainMqtt := ⟨firstHeaderByte, variableU32⟩

theorem variableU32_eq {field : Bytes} {value : ℕ} (encoded : VariableByteInteger field value) :
    variableU32 field = .ok value := by
  induction encoded with
  | last final => exact if_pos final
  | more continues rest inductionHypothesis =>
      rw [variableU32, if_neg continues, inductionHypothesis]
      rfl

theorem reference_documented : reference.Documented :=
  ⟨fun _ _ encoded _ => variableU32_eq encoded⟩

namespace PacketReader

def connackAndPublish : List Bytes :=
  [[0x20, 0x03, 0x00, 0x00, 0x00], [0x30, 0x05, 0x00, 0x01, 0x74, 0x00, 0x78]]

theorem connackAndPublish_valid : ∀ packet ∈ connackAndPublish, IsPacket reference packet := by
  rintro packet (_ | ⟨_, _ | ⟨_, none_left⟩⟩)
  · exact ⟨0x20, [0x03], [0x00, 0x00, 0x00], rfl, rfl, .last rfl, by decide⟩
  · exact ⟨0x30, [0x05], [0x00, 0x01, 0x74, 0x00, 0x78], rfl, rfl, .last rfl, by decide⟩
  · cases none_left

/-- The length of the second packet is cut from its first byte, and its end is
still to come. -/
theorem reassembles_split : Reassembles reference 12 connackAndPublish
    [[0x20], [0x03, 0x00, 0x00], [0x00, 0x30], [0x05, 0x00, 0x01, 0x74]] [0x00, 0x78] :=
  @reassembles reference 12 connackAndPublish _ _ 5 reference_documented connackAndPublish_valid
    (by decide) (by decide) (by decide)

end PacketReader

end AimDb.Mqtt.Embedded
