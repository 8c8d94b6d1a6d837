import AimDb.Framing.Measured
import AimDb.Layout.Cells
import AimDb.Tcp.Framing

/-!
# Frames come out as they went in, however the stream is cut

The header is a measure of the stream, so draining after each read takes the
frames that a reader of the whole stream takes.
-/

namespace AimDb.Tcp

open AimDb.Framing
open AimDb.Json (Bytes)
open AimDb.Layout

variable {usize : Usize} {maxFrame : ℕ}

@[simp] theorem length_beBytes (len : ℕ) : (beBytes len).length = HEADER_LEN := by
  rw [beBytes, List.length_reverse, length_leBytes]

theorem declared_append {stream : Bytes} (whole : HEADER_LEN ≤ stream.length) (more : Bytes) :
    declared (stream ++ more) = declared stream := by
  rw [declared, declared, List.take_append_of_le_length whole]

theorem declared_beBytes {len : ℕ} (fits : len < 2 ^ 32) (more : Bytes) :
    declared (beBytes len ++ more) = len := by
  rw [declared, List.take_left' (length_beBytes len), beBytes, List.reverse_reverse]
  exact leValue_leBytes_of_lt fits

theorem declared_lt (stream : Bytes) : declared stream < 2 ^ 32 := by
  calc
    declared stream < 256 ^ (stream.take HEADER_LEN).reverse.length := leValue_lt _
    _ ≤ 256 ^ HEADER_LEN := by
        apply Nat.pow_le_pow_right (by decide)
        rw [List.length_reverse, List.length_take]
        exact Nat.min_le_left _ _
    _ = 2 ^ 32 := rfl

theorem Usize.cast_of_lt (usize : Usize) {len : ℕ} (small : len < 2 ^ 32) :
    usize.cast len = len :=
  Nat.mod_eq_of_lt (Nat.lt_of_lt_of_le small (Nat.pow_le_pow_right (by decide) usize.holdsHeader))

theorem Usize.cast_declared (usize : Usize) (stream : Bytes) :
    usize.cast (declared stream) = declared stream :=
  usize.cast_of_lt (declared_lt stream)

theorem Usize.holds_frame (usize : Usize) (frame : usize.Slice) :
    HEADER_LEN + frame.1.length ≤ usize.max := by
  have wide := usize.holdsHeader
  have short := frame.2
  have room : 2 ^ 31 ≤ 2 ^ (usize.bits - 1) := Nat.pow_le_pow_right (by decide) (by omega)
  have double : 2 ^ usize.bits = 2 * 2 ^ (usize.bits - 1) := by
    rw [← Nat.pow_succ']
    congr 1
    omega
  simp only [max, HEADER_LEN]
  omega

def look (usize : Usize) (maxFrame : ℕ) (stream : Bytes) : Option (Except FrameError ℕ) :=
  if stream.length < HEADER_LEN then none
  else if maxFrame < declared stream then some (.error .tooLarge)
  else if usize.max < HEADER_LEN + declared stream then some (.error .lengthOverflow)
  else if stream.length < HEADER_LEN + declared stream then none
  else some (.ok (HEADER_LEN + declared stream))

theorem look_eq_ok_iff {stream : Bytes} {size : ℕ} :
    look usize maxFrame stream = some (.ok size) ↔
      HEADER_LEN + declared stream ≤ stream.length ∧ declared stream ≤ maxFrame ∧
        HEADER_LEN + declared stream ≤ usize.max ∧ size = HEADER_LEN + declared stream := by
  rw [look]
  split_ifs <;> simp <;> omega

def lengthPrefix (usize : Usize) (maxFrame : ℕ) : Measure UInt8 FrameError where
  look := look usize maxFrame
  idle := rfl
  inside := by
    intro stream size seen
    obtain ⟨whole, -, -, rfl⟩ := look_eq_ok_iff.mp seen
    exact ⟨Nat.lt_add_right _ (by decide), whole⟩
  stable := by
    intro stream more seen looked
    rw [look] at looked ⊢
    by_cases short : stream.length < HEADER_LEN
    · rw [if_pos short] at looked
      cases looked
    · rw [if_neg short] at looked
      rw [declared_append (Nat.le_of_not_lt short), List.length_append, if_neg (by omega)]
      split_ifs at looked ⊢
      all_goals first | exact looked | omega

namespace LengthFramer

variable {framer : LengthFramer}

abbrev measure (usize : Usize) (framer : LengthFramer) : Measure UInt8 FrameError :=
  lengthPrefix usize framer.acc.maxFrame

def holding (framer : LengthFramer) (buf : Bytes) : LengthFramer :=
  { framer with acc := { framer.acc with buf := buf } }

theorem nextFrame_of_none (framer : LengthFramer)
    (seen : look usize framer.acc.maxFrame framer.acc.buf = none) :
    framer.nextFrame usize = (none, framer) := by
  rw [look] at seen
  simp only [nextFrame, FrameAccumulator.nextFrame, usize.cast_declared]
  split_ifs at seen ⊢ <;> rfl

/-- A header that declares too much empties the accumulator. -/
theorem nextFrame_of_error (framer : LengthFramer) {error : FrameError}
    (seen : look usize framer.acc.maxFrame framer.acc.buf = some (.error error)) :
    framer.nextFrame usize = (some (.error .fatal), framer.holding []) := by
  rw [look] at seen
  simp only [nextFrame, FrameAccumulator.nextFrame, usize.cast_declared]
  split_ifs at seen ⊢ <;> first | rfl | cases seen

theorem nextFrame_of_ok (framer : LengthFramer) {size : ℕ}
    (seen : look usize framer.acc.maxFrame framer.acc.buf = some (.ok size)) :
    framer.nextFrame usize =
      (some (.ok ((framer.acc.buf.take size).drop HEADER_LEN)),
        framer.holding (framer.acc.buf.drop size)) := by
  obtain ⟨whole, small, fits, rfl⟩ := look_eq_ok_iff.mp seen
  simp only [nextFrame, FrameAccumulator.nextFrame, usize.cast_declared]
  rw [if_neg (by omega), if_neg (by omega), if_neg (by omega), if_neg (by omega)]
  simp only [holding, List.drop_drop, List.drop_take, Nat.add_sub_cancel_left]

theorem nextFrame_shrinks {result : Except FrameFault Bytes} {after : LengthFramer}
    (called : framer.nextFrame usize = (some result, after)) :
    after.acc.buf.length < framer.acc.buf.length := by
  cases seen : look usize framer.acc.maxFrame framer.acc.buf with
  | none =>
      rw [framer.nextFrame_of_none seen] at called
      cases called
  | some verdict =>
      cases verdict with
      | error error =>
          rw [framer.nextFrame_of_error seen] at called
          cases called
          apply List.length_pos_of_ne_nil
          intro empty
          rw [empty] at seen
          cases seen
      | ok size =>
          rw [framer.nextFrame_of_ok seen] at called
          cases called
          exact (lengthPrefix usize framer.acc.maxFrame).length_drop_lt seen

/-- Call `nextFrame` until it has nothing to hand out. -/
def drain (usize : Usize) (framer : LengthFramer) :
    List (Except FrameFault Bytes) × LengthFramer :=
  match _ : framer.nextFrame usize with
  | (none, after) => ([], after)
  | (some result, after) =>
      let drained := drain usize after
      (result :: drained.1, drained.2)
termination_by framer.acc.buf.length
decreasing_by exact nextFrame_shrinks ‹_›

def receive (usize : Usize) (framer : LengthFramer) :
    List Bytes → List (Except FrameFault Bytes) × LengthFramer
  | [] => ([], framer)
  | chunk :: chunks =>
      let drained := (framer.pushBytes chunk).drain usize
      let received := receive usize drained.2 chunks
      (drained.1 ++ received.1, received.2)

def framesOf (pieces : List Bytes) : List (Except FrameFault Bytes) :=
  pieces.map fun piece => .ok (piece.drop HEADER_LEN)

theorem drain_of_none {after : LengthFramer} (called : framer.nextFrame usize = (none, after)) :
    framer.drain usize = ([], after) := by
  rw [drain]
  split
  · next found =>
    rw [called] at found
    rw [(Prod.mk.inj found).2]
  · next found =>
    rw [called] at found
    cases (Prod.mk.inj found).1

theorem drain_of_some {result : Except FrameFault Bytes} {after : LengthFramer}
    (called : framer.nextFrame usize = (some result, after)) :
    framer.drain usize = (result :: (after.drain usize).1, (after.drain usize).2) := by
  rw [drain]
  split
  · next found =>
    rw [called] at found
    cases (Prod.mk.inj found).1
  · next found =>
    rw [called] at found
    obtain ⟨same, rfl⟩ := Prod.mk.inj found
    rw [Option.some.inj same]

theorem drain_nil (usize : Usize) (framer : LengthFramer) :
    (framer.holding []).drain usize = ([], framer.holding []) :=
  drain_of_none (nextFrame_of_none (framer.holding []) rfl)

/-- What is handed out and kept of a stream that the header cuts so. -/
def after (framer : LengthFramer) (cut : Cut UInt8 FrameError) :
    List (Except FrameFault Bytes) × LengthFramer :=
  match cut.fault with
  | none => (framesOf cut.pieces, framer.holding cut.rest)
  | some _ => (framesOf cut.pieces ++ [.error .fatal], framer.holding [])

theorem after_append (framer : LengthFramer) (pieces : List Bytes) (cut : Cut UInt8 FrameError) :
    framer.after ⟨pieces ++ cut.pieces, cut.rest, cut.fault⟩ =
      (framesOf pieces ++ (framer.after cut).1, (framer.after cut).2) := by
  obtain ⟨others, rest, fault⟩ := cut
  cases fault with
  | none => simp [after, framesOf]
  | some error => simp [after, framesOf]

theorem after_of_fault {cut : Cut UInt8 FrameError} {error : FrameError}
    (found : cut.fault = some error) :
    framer.after cut = (framesOf cut.pieces ++ [.error .fatal], framer.holding []) := by
  rw [after, found]

theorem drain_eq (usize : Usize) (framer : LengthFramer) :
    framer.drain usize = framer.after ((framer.measure usize).cut framer.acc.buf) := by
  obtain ⟨⟨buf, cap⟩, maxFrame⟩ := framer
  change _ = after _ ((lengthPrefix usize cap).cut buf)
  induction buf using (lengthPrefix usize cap).streamInduction with
  | waiting buf seen =>
      rw [drain_of_none (nextFrame_of_none ⟨⟨buf, cap⟩, maxFrame⟩ seen),
        Measure.cut_of_none seen]
      rfl
  | faulty buf error seen =>
      rw [drain_of_some (nextFrame_of_error ⟨⟨buf, cap⟩, maxFrame⟩ seen), drain_nil,
        Measure.cut_of_error seen]
      rfl
  | piece buf size seen inductionHypothesis =>
      rw [drain_of_some (nextFrame_of_ok ⟨⟨buf, cap⟩, maxFrame⟩ seen),
        Measure.cut_of_ok seen, holding, inductionHypothesis]
      exact (after_append _ [buf.take size] _).symm

theorem receive_append (usize : Usize) (framer : LengthFramer) (before after : List Bytes) :
    framer.receive usize (before ++ after) =
      ((framer.receive usize before).1 ++ ((framer.receive usize before).2.receive usize after).1,
        ((framer.receive usize before).2.receive usize after).2) := by
  induction before generalizing framer with
  | nil => rfl
  | cons chunk before inductionHypothesis =>
      simp only [List.cons_append, receive, inductionHypothesis, List.append_assoc]

theorem drain_pushBytes (usize : Usize) (framer : LengthFramer) (chunk : Bytes) :
    (framer.pushBytes chunk).drain usize =
      framer.after ((framer.measure usize).cut (framer.acc.buf ++ chunk)) :=
  drain_eq usize (framer.pushBytes chunk)

/-- While no header declares too much, chunks yield what the whole stream holds. -/
theorem receive_clear {chunks : List Bytes}
    (settled : (framer.measure usize).look framer.acc.buf = none)
    (clear : ((framer.measure usize).cut (framer.acc.buf ++ chunks.flatten)).fault = none) :
    framer.receive usize chunks =
      framer.after ((framer.measure usize).cut (framer.acc.buf ++ chunks.flatten)) := by
  induction chunks generalizing framer with
  | nil =>
      rw [List.flatten_nil, List.append_nil, Measure.cut_of_none settled]
      rfl
  | cons chunk chunks inductionHypothesis =>
      rw [List.flatten_cons, ← List.append_assoc] at clear ⊢
      have clearNow := Measure.cut_fault_of_append clear
      have unread := (framer.measure usize).look_rest (framer.acc.buf ++ chunk)
      have drained := framer.drain_pushBytes usize chunk
      rw [Measure.cut_append] at clear ⊢
      cases taken : (framer.measure usize).cut (framer.acc.buf ++ chunk) with
      | mk pieces rest fault =>
          rw [taken] at clearNow unread drained clear
          obtain rfl : fault = none := clearNow
          have received := @inductionHypothesis (framer.holding rest) unread clear
          rw [receive, drained, after_append]
          exact congrArg (fun later => (framesOf pieces ++ later.1, later.2)) received

/-- The chunk that completes a header which declares too much brings the fault, and
leaves nothing. -/
theorem receive_fault {before : List Bytes} {chunk : Bytes} {error : FrameError}
    (settled : (framer.measure usize).look framer.acc.buf = none)
    (clear : ((framer.measure usize).cut (framer.acc.buf ++ before.flatten)).fault = none)
    (found : ((framer.measure usize).cut
      (framer.acc.buf ++ (before ++ [chunk]).flatten)).fault = some error) :
    framer.receive usize (before ++ [chunk]) =
      (framesOf ((framer.measure usize).cut
          (framer.acc.buf ++ (before ++ [chunk]).flatten)).pieces ++ [.error .fatal],
        framer.holding []) := by
  have received := receive_clear settled clear
  rw [List.flatten_append, ← List.append_assoc, List.flatten_singleton,
    Measure.cut_append] at found ⊢
  cases taken : (framer.measure usize).cut (framer.acc.buf ++ before.flatten) with
  | mk pieces rest fault =>
      rw [taken] at clear received found
      obtain rfl : fault = none := clear
      have drained : _ = framer.after ((framer.measure usize).cut (rest ++ chunk)) :=
        (framer.holding rest).drain_pushBytes usize chunk
      have foundNow : ((framer.measure usize).cut (rest ++ chunk)).fault = some error := found
      rw [after_of_fault foundNow] at drained
      rw [receive_append, received]
      simp only [after, receive]
      rw [drained]
      simp only [framesOf, List.append_nil, List.map_append, List.append_assoc]

theorem drain_bounded {frame : Bytes} (handed : .ok frame ∈ (framer.drain usize).1) :
    frame.length ≤ framer.acc.maxFrame := by
  rw [drain_eq] at handed
  have taken : (Except.ok frame : Except FrameFault Bytes) ∈
      framesOf ((framer.measure usize).cut framer.acc.buf).pieces := by
    cases found : ((framer.measure usize).cut framer.acc.buf).fault with
    | none => simpa [after, found] using handed
    | some error => simpa [after, found] using handed
  obtain ⟨piece, inside, same⟩ := List.mem_map.mp taken
  obtain rfl := Except.ok.inj same
  obtain ⟨more, seen⟩ := Measure.look_of_mem inside
  obtain ⟨-, small, -, size⟩ := look_eq_ok_iff.mp seen
  rw [List.length_drop, size]
  omega

theorem drain_maxFrame (usize : Usize) (framer : LengthFramer) :
    (framer.drain usize).2.acc.maxFrame = framer.acc.maxFrame := by
  rw [drain_eq, after]
  split <;> rfl

theorem receive_bounded {chunks : List Bytes} {frame : Bytes}
    (handed : .ok frame ∈ (framer.receive usize chunks).1) :
    frame.length ≤ framer.acc.maxFrame := by
  induction chunks generalizing framer with
  | nil => cases handed
  | cons chunk chunks inductionHypothesis =>
      rcases List.mem_append.mp handed with now | later
      · exact @drain_bounded usize (framer.pushBytes chunk) frame now
      · have bound := inductionHypothesis later
        rwa [drain_maxFrame] at bound

/-- A frame that a header can announce to a reader with this bound. -/
structure Fits (usize : Usize) (maxFrame : ℕ) (frame : Bytes) : Prop where
  small : frame.length ≤ maxFrame
  declarable : frame.length < 2 ^ 32
  addressable : HEADER_LEN + frame.length ≤ usize.max

def wire (frame : Bytes) : Bytes := beBytes frame.length ++ frame

theorem Fits.piece {frame : Bytes} (fits : Fits usize maxFrame frame) :
    (lengthPrefix usize maxFrame).Piece (wire frame) := by
  change look usize maxFrame (wire frame) = some (.ok (wire frame).length)
  rw [look_eq_ok_iff, wire, declared_beBytes fits.declarable, List.length_append, length_beBytes]
  exact ⟨Nat.le_refl _, fits.small, fits.addressable, rfl⟩

theorem framesOf_wire (frames : List Bytes) : framesOf (frames.map wire) = frames.map .ok := by
  rw [framesOf, List.map_map]
  apply List.map_congr_left
  intro frame _
  exact congrArg Except.ok (List.drop_left' (length_beBytes frame.length))

/-- Encode the frames one after another; those accepted, and what is written. -/
def encodeAll (framer : LengthFramer) : List Bytes → Bytes → List Bytes × Bytes
  | [], out => ([], out)
  | frame :: frames, out =>
      match framer.encode frame out with
      | (.ok (), out) =>
          let later := encodeAll framer frames out
          (frame :: later.1, later.2)
      | (.error _, out) => encodeAll framer frames out

theorem encode_spec (framer : LengthFramer) (frame out : Bytes) :
    (frame.length ≤ framer.maxFrame ∧ frame.length < 2 ^ 32 ∧
        framer.encode frame out = (.ok (), out ++ wire frame)) ∨
      (¬(frame.length ≤ framer.maxFrame ∧ frame.length < 2 ^ 32) ∧
        framer.encode frame out = (.error .recoverable, out)) := by
  rw [encode, encodeFrame]
  split_ifs with oversized declarable
  · exact .inr ⟨by omega, rfl⟩
  · exact .inl ⟨by omega, declarable, by simp [wire]⟩
  · exact .inr ⟨by omega, rfl⟩

theorem encodeAll_spec (framer : LengthFramer) (frames : List Bytes) (out : Bytes) :
    (framer.encodeAll frames out).2 = out ++ ((framer.encodeAll frames out).1.map wire).flatten ∧
      ∀ frame ∈ (framer.encodeAll frames out).1,
        frame ∈ frames ∧ frame.length ≤ framer.maxFrame ∧ frame.length < 2 ^ 32 := by
  induction frames generalizing out with
  | nil => simp [encodeAll]
  | cons frame frames inductionHypothesis =>
      rcases framer.encode_spec frame out with ⟨small, declarable, encoded⟩ | ⟨_, encoded⟩
      · obtain ⟨written, kept⟩ := inductionHypothesis (out ++ wire frame)
        simp only [encodeAll, encoded]
        refine ⟨by rw [written]; simp, ?_⟩
        rintro other (_ | ⟨_, inside⟩)
        · exact ⟨List.mem_cons_self, small, declarable⟩
        · exact ⟨List.mem_cons_of_mem _ (kept other inside).1, (kept other inside).2⟩
      · obtain ⟨written, kept⟩ := inductionHypothesis out
        simp only [encodeAll, encoded]
        exact ⟨written, fun other inside =>
          ⟨List.mem_cons_of_mem _ (kept other inside).1, (kept other inside).2⟩⟩

/-- What length-prefix framing keeps, whatever comes and however it is cut into
chunks.  A framer that has faulted is a new one again. -/
structure Carries (usize : Usize) (maxFrame : ℕ) : Prop where
  /-- The chunks of what was written yield the frames accepted, and nothing is left. -/
  roundTrip : ∀ (frames : List usize.Slice) (chunks : List Bytes),
    chunks.flatten = ((withMaxFrame maxFrame).encodeAll (frames.map Subtype.val) []).2 →
      (withMaxFrame maxFrame).receive usize chunks =
        (((withMaxFrame maxFrame).encodeAll (frames.map Subtype.val) []).1.map .ok,
          withMaxFrame maxFrame)
  /-- The encoder's bound is the decoder's. -/
  accepts : ∀ frame out, ((withMaxFrame maxFrame).encode frame out).1 = .ok () ↔
    frame.length ≤ maxFrame ∧ frame.length < 2 ^ 32
  rejects : ∀ framer : LengthFramer, ∀ frame out, (framer.encode frame out).1 ≠ .ok () →
    framer.encode frame out = (.error .recoverable, out)
  faults : ∀ framer : LengthFramer, HEADER_LEN ≤ framer.acc.buf.length →
    framer.acc.maxFrame < declared framer.acc.buf →
      framer.drain usize = ([.error .fatal], framer.holding [])
  /-- On any stream, it is the chunk with the end of that header which brings the fault. -/
  oversized : ∀ (frames : List Bytes) (header rest : Bytes) (before : List Bytes) (chunk : Bytes),
    (∀ frame ∈ frames, Fits usize maxFrame frame) →
      header.length = HEADER_LEN → maxFrame < declared header →
      (before ++ [chunk]).flatten = (frames.map wire).flatten ++ (header ++ rest) →
      before.flatten.length < ((frames.map wire).flatten ++ header).length →
        (withMaxFrame maxFrame).receive usize (before ++ [chunk]) =
          (frames.map .ok ++ [.error .fatal], withMaxFrame maxFrame)
  bounded : ∀ chunks frame, .ok frame ∈ ((withMaxFrame maxFrame).receive usize chunks).1 →
    frame.length ≤ maxFrame

theorem round_trip (usize : Usize) (maxFrame : ℕ) (frames : List usize.Slice)
    {chunks : List Bytes} (written : chunks.flatten =
      ((withMaxFrame maxFrame).encodeAll (frames.map Subtype.val) []).2) :
    (withMaxFrame maxFrame).receive usize chunks =
      (((withMaxFrame maxFrame).encodeAll (frames.map Subtype.val) []).1.map .ok,
        withMaxFrame maxFrame) := by
  obtain ⟨stream, kept⟩ := (withMaxFrame maxFrame).encodeAll_spec (frames.map Subtype.val) []
  generalize (withMaxFrame maxFrame).encodeAll (frames.map Subtype.val) [] = encoded at *
  have whole : ∀ piece ∈ encoded.1.map wire, (lengthPrefix usize maxFrame).Piece piece := by
    intro piece inside
    obtain ⟨frame, accepted, rfl⟩ := List.mem_map.mp inside
    obtain ⟨offered, small, declarable⟩ := kept frame accepted
    obtain ⟨slice, _, rfl⟩ := List.mem_map.mp offered
    exact Fits.piece ⟨small, declarable, usize.holds_frame slice⟩
  have cut : (lengthPrefix usize maxFrame).cut chunks.flatten =
      ⟨encoded.1.map wire, [], none⟩ := by
    rw [written, stream]
    exact Measure.cut_flatten whole
  have received := @receive_clear usize (withMaxFrame maxFrame) chunks rfl (by exact congrArg _ cut)
  rw [received]
  change after _ ((lengthPrefix usize maxFrame).cut chunks.flatten) = _
  rw [cut, ← framesOf_wire]
  rfl

theorem look_of_short {stream : Bytes} (short : stream.length < HEADER_LEN) :
    look usize maxFrame stream = none := if_pos short

theorem look_oversized {stream : Bytes} (whole : HEADER_LEN ≤ stream.length)
    (tooMuch : maxFrame < declared stream) :
    look usize maxFrame stream = some (.error .tooLarge) := by
  rw [look, if_neg (by omega), if_pos tooMuch]

theorem fault_of_oversized {frames before : List Bytes} {header rest chunk : Bytes}
    (fit : ∀ frame ∈ frames, Fits usize maxFrame frame) (fourBytes : header.length = HEADER_LEN)
    (tooMuch : maxFrame < declared header)
    (stream : (before ++ [chunk]).flatten = (frames.map wire).flatten ++ (header ++ rest))
    (early : before.flatten.length < ((frames.map wire).flatten ++ header).length) :
    (withMaxFrame maxFrame).receive usize (before ++ [chunk]) =
      (frames.map .ok ++ [.error .fatal], withMaxFrame maxFrame) := by
  have whole : ∀ piece ∈ frames.map wire, (lengthPrefix usize maxFrame).Piece piece := by
    intro piece inside
    obtain ⟨frame, among, rfl⟩ := List.mem_map.mp inside
    exact (fit frame among).piece
  have refused : (lengthPrefix usize maxFrame).look (header ++ rest) = some (.error .tooLarge) := by
    apply look_oversized
    · rw [List.length_append]
      omega
    · rwa [declared_append (by omega)]
  have cut : (lengthPrefix usize maxFrame).cut (before ++ [chunk]).flatten =
      ⟨frames.map wire, header ++ rest, some .tooLarge⟩ := by
    rw [stream, Measure.cut_pieces whole, Measure.cut_of_error refused, List.append_nil]
  have clear : ((lengthPrefix usize maxFrame).cut before.flatten).fault = none := by
    cases found : ((lengthPrefix usize maxFrame).cut before.flatten).fault with
    | none => rfl
    | some error =>
        -- the header is not there before the chunk
        have seen := (lengthPrefix usize maxFrame).look_rest before.flatten
        have kept := (lengthPrefix usize maxFrame).flatten_cut before.flatten
        have later := Measure.cut_append_of_fault found chunk
        rw [← List.flatten_concat, cut, Cut.mk.injEq] at later
        rw [← later.1] at kept
        have short : ((lengthPrefix usize maxFrame).cut before.flatten).rest.length <
            HEADER_LEN := by
          rw [← kept, List.length_append, List.length_append] at early
          omega
        rw [found] at seen
        exact absurd ((look_of_short short).symm.trans seen) (by simp)
  have received := @receive_fault usize (withMaxFrame maxFrame) before chunk .tooLarge rfl clear
    (by exact congrArg Cut.fault cut)
  rw [received]
  change (framesOf ((lengthPrefix usize maxFrame).cut
    (before ++ [chunk]).flatten).pieces ++ _, _) = _
  rw [cut, framesOf_wire]
  rfl

theorem carries (usize : Usize) (maxFrame : ℕ) : Carries usize maxFrame := by
  constructor
  · exact fun frames chunks written => round_trip usize maxFrame frames written
  · intro frame out
    rcases (withMaxFrame maxFrame).encode_spec frame out with
      ⟨small, declarable, encoded⟩ | ⟨bad, encoded⟩
    · rw [encoded]
      exact ⟨fun _ => ⟨small, declarable⟩, fun _ => rfl⟩
    · rw [encoded]
      constructor
      · intro accepted
        cases accepted
      · exact fun fits => absurd fits bad
  · intro framer frame out refused
    rcases framer.encode_spec frame out with ⟨_, _, encoded⟩ | ⟨_, encoded⟩
    · exact absurd (congrArg Prod.fst encoded) refused
    · exact encoded
  · intro framer whole tooMuch
    rw [drain_of_some (nextFrame_of_error framer (look_oversized whole tooMuch)), drain_nil]
  · exact fun frames header rest before chunk => fault_of_oversized
  · exact fun chunks frame handed => receive_bounded handed

end LengthFramer

end AimDb.Tcp
