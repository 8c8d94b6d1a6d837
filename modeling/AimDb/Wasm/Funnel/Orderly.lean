import AimDb.Wasm.Funnel
import Mathlib.Data.List.Basic
import Mathlib.Algebra.GroupWithZero.Nat

/-!
# What the funnel keeps

The frames that `recv` returns and those still queued are the accepted ones, in order, and these
are a prefix of all that arrived.  A frame over a limit ends the stream at once; a close lets the
queue drain.
-/

namespace AimDb.Wasm.Funnel

variable {s after : WasmWsConnection} {log events : List Event} {text : JsString} {frame : Frame}
  {verdict : Funneled}

theorem toNat_ofNat {n : ℕ} (valid : n.isValidChar) : (Char.ofNat n).toNat = n := by
  unfold Char.ofNat
  rw [dif_pos valid]
  rfl

theorem joined_length {high low : UInt16} (isHigh : isHigh high = true)
    (isLow : isLow low = true) : (String.utf8EncodeChar (joined high low)).length = 4 := by
  obtain ⟨fromHigh, toHigh⟩ := of_decide_eq_true isHigh
  obtain ⟨fromLow, toLow⟩ := of_decide_eq_true isLow
  rw [UInt16.le_iff_toNat_le] at fromHigh fromLow
  rw [UInt16.lt_iff_toNat_lt] at toHigh toLow
  simp only [UInt16.reduceToNat] at fromHigh fromLow toHigh toLow
  have value : (joined high low).toNat =
      0x10000 + (high.toNat - 0xD800) * 0x400 + (low.toNat - 0xDC00) := by
    apply toNat_ofNat
    apply Or.inr
    omega
  rw [String.length_utf8EncodeChar, Char.utf8Size_eq_four_iff, UInt32.lt_iff_toNat_lt]
  change 0xffff < (joined high low).toNat
  omega

theorem length_le_flatMap {rest : JsString} (char : Char) {decoded : List Char}
    (shorter : rest.length ≤ (decoded.flatMap String.utf8EncodeChar).length) :
    rest.length + 1 ≤ ((char :: decoded).flatMap String.utf8EncodeChar).length := by
  have pos : 0 < (String.utf8EncodeChar char).length := by
    rw [String.length_utf8EncodeChar]
    exact char.utf8Size_pos
  rw [List.flatMap_cons, List.length_append]
  omega

theorem length_le_intoBytes (text : JsString) : text.length ≤ (intoBytes text).length := by
  unfold intoBytes
  fun_induction chars text with
  | case1 => exact Nat.zero_le _
  | case2 | case3 => exact length_le_flatMap _ (Nat.zero_le _)
  | case4 unit next rest isHigh isLow inductionHypothesis =>
      have four := joined_length isHigh isLow
      rw [List.flatMap_cons, List.length_append, List.length_cons, List.length_cons]
      omega
  | case5 unit next rest _ _ inductionHypothesis => exact length_le_flatMap _ inductionHypothesis
  | case6 unit next rest _ _ inductionHypothesis => exact length_le_flatMap _ inductionHypothesis
  | case7 unit next rest _ _ inductionHypothesis => exact length_le_flatMap _ inductionHypothesis

theorem funnelText_eq (s : WasmWsConnection) (text : JsString) :
    s.funnelText text =
      if s.frames.isClosed then (s, .closed)
      else if maxFrameBytes < (intoBytes text).length then (s.overflow, .oversize)
      else s.funnelFrame (intoBytes text) := by
  have longer := length_le_intoBytes text
  unfold WasmWsConnection.funnelText
  split
  · rfl
  · by_cases units : text.length ≤ maxFrameBytes
    · rw [if_pos units]
      dsimp only
      by_cases bytes : (intoBytes text).length ≤ maxFrameBytes
      · rw [if_pos bytes, if_neg (Nat.not_lt.mpr bytes)]
      · rw [if_neg bytes, if_pos (Nat.lt_of_not_le bytes)]
    · rw [if_neg units, if_pos (Nat.lt_of_lt_of_le (Nat.lt_of_not_le units) longer)]

inductive Arrives (s : WasmWsConnection) (frame : Frame) : WasmWsConnection × Funneled → Prop
  | closed : s.frames.isClosed = true → Arrives s frame (s, .closed)
  | oversize : s.frames.isClosed = false → maxFrameBytes < frame.length →
      Arrives s frame (s.overflow, .oversize)
  | overflowed : s.frames.isClosed = false → frame.length ≤ maxFrameBytes →
      Arrives s frame (s.overflow, .overflowed)
  | accepted : s.frames.isClosed = false → frame.length ≤ maxFrameBytes →
      s.funnel.queuedBytes + frame.length ≤ frameQueueBytes →
      s.frames.queue.length ≤ frameQueueCap →
      Arrives s frame
        ({ s with
            frames := ⟨s.frames.queue ++ [frame], false⟩,
            funnel := { s.funnel with queuedBytes := s.funnel.queuedBytes + frame.length } },
          .accepted)

theorem arrives (s : WasmWsConnection) (text : JsString) :
    Arrives s (intoBytes text) (s.funnelText text) := by
  rw [funnelText_eq]
  cases isClosed : s.frames.isClosed with
  | true => exact .closed isClosed
  | false =>
      rw [if_neg (by decide)]
      split
      next big => exact .oversize isClosed big
      next small =>
        have fits := Nat.le_of_not_lt small
        unfold WasmWsConnection.funnelFrame
        rw [isClosed, if_neg (by decide)]
        dsimp only
        split
        · exact .overflowed isClosed fits
        next budget =>
          have within : s.funnel.queuedBytes + (intoBytes text).length ≤ frameQueueBytes := by
            unfold saturatingAdd frameQueueBytes at budget
            unfold frameQueueBytes
            omega
          unfold Channel.trySend
          by_cases room : frameQueueCap < s.frames.queue.length
          · rw [if_pos room]
            exact .overflowed isClosed fits
          · rw [if_neg room, isClosed, if_neg (by decide)]
            exact .accepted isClosed fits within (Nat.le_of_not_lt room)

def Event.arrived? : Event → List Frame
  | .arrived frame _ => [frame]
  | _ => []

def Event.accepted? : Event → List Frame
  | .arrived frame .accepted => [frame]
  | _ => []

def Event.returned? : Event → List Frame
  | .returned (some frame) => [frame]
  | _ => []

def Event.IsRefusal : Event → Prop
  | .arrived _ verdict => verdict ≠ .accepted
  | _ => False

def Event.IsAccepted : Event → Prop
  | .arrived _ verdict => verdict = .accepted
  | _ => False

/-- What `recv` has answered since a frame was refused over a limit, if one was. -/
def answers (since : Option (List (Option Frame))) : Event → Option (List (Option Frame))
  | .arrived _ .overflowed => some (since.getD [])
  | .arrived _ .oversize => some (since.getD [])
  | .returned answer => since.map (· ++ [answer])
  | _ => since

def answered (log : List Event) : Option (List (Option Frame)) := log.foldl answers none

theorem answered_append (log events : List Event) :
    answered (log ++ events) = events.foldl answers (answered log) := List.foldl_append

structure Orderly (s : WasmWsConnection) (log : List Event) : Prop where
  counted : s.funnel.queuedBytes = (s.frames.queue.map List.length).sum
  within : s.funnel.queuedBytes ≤ frameQueueBytes
  sized : ∀ frame ∈ s.frames.queue, frame.length ≤ maxFrameBytes
  slots : s.frames.queue.length ≤ frameQueueCap + 1
  inOrder : log.flatMap Event.accepted? = log.flatMap Event.returned? ++ s.frames.queue
  first : log.flatMap Event.accepted? <+: log.flatMap Event.arrived?
  final : log.Pairwise fun earlier later => earlier.IsRefusal → ¬ later.IsAccepted
  /-- After a frame over a limit, one more at most, then the end of the stream. -/
  ends : ∀ since, answered log = some since → ∀ answer ∈ since.tail, answer = none

structure Kept (s : WasmWsConnection) (log : List Event) : Prop extends Orderly s log where
  whole : s.frames.isClosed = false →
    log.flatMap Event.accepted? = log.flatMap Event.arrived? ∧
    ∀ event ∈ log, ¬ event.IsRefusal
  exceeded : s.funnel.overflowed = true ↔ (answered log).isSome = true
  cut : s.funnel.overflowed = true → s.frames.isClosed = true
  waiting : s.parked = true → ∀ since, answered log = some since → since = []

theorem kept_start : Kept {} [] where
  counted := rfl
  within := Nat.zero_le _
  sized _ mem := by cases mem
  slots := Nat.zero_le _
  inOrder := rfl
  first := List.prefix_refl _
  final := .nil
  ends _ none := by cases none
  whole _ := ⟨rfl, fun _ mem => by cases mem⟩
  exceeded := by simp [answered]
  cut overflowed := by cases overflowed
  waiting parked := by cases parked

theorem Kept.refuse (kept : Kept s log) (refused : verdict ≠ .accepted)
    (queue : after.frames.queue = s.frames.queue)
    (bytes : after.funnel.queuedBytes = s.funnel.queuedBytes)
    (closed : after.frames.isClosed = true)
    (exceeded : after.funnel.overflowed = true ↔
      (answered (log ++ [.arrived frame verdict])).isSome = true)
    (ends : ∀ since, answered (log ++ [.arrived frame verdict]) = some since →
      since = [] ∨ answered log = some since)
    (parked : after.parked = s.parked) : Kept after (log ++ [.arrived frame verdict]) := by
  have accepted : (log ++ [Event.arrived frame verdict]).flatMap Event.accepted? =
      log.flatMap Event.accepted? := by
    cases verdict with
    | accepted => exact absurd rfl refused
    | overflowed | oversize | closed => simp [Event.accepted?]
  have returned : (log ++ [Event.arrived frame verdict]).flatMap Event.returned? =
      log.flatMap Event.returned? := by simp [Event.returned?]
  refine { counted := ?_, within := ?_, sized := ?_, slots := ?_, inOrder := ?_, first := ?_,
           final := ?_, ends := ?_, whole := ?_, exceeded := exceeded, cut := fun _ => closed,
           waiting := ?_ }
  · rw [bytes, queue]
    exact kept.counted
  · rw [bytes]
    exact kept.within
  · rw [queue]
    exact kept.sized
  · rw [queue]
    exact kept.slots
  · rw [accepted, returned, queue]
    exact kept.inOrder
  · rw [accepted, List.flatMap_append]
    exact kept.first.trans (List.prefix_append ..)
  · rw [List.pairwise_append]
    refine ⟨kept.final, List.pairwise_singleton .., ?_⟩
    intro _ _ later mem _
    rw [List.mem_singleton.mp mem]
    exact refused
  · intro since isSince answer mem
    rcases ends since isSince with rfl | before
    · cases mem
    · exact kept.ends since before answer mem
  · intro isOpen
    rw [closed] at isOpen
    cases isOpen
  · intro isParked since isSince
    rcases ends since isSince with nothing | before
    · exact nothing
    · exact kept.waiting (parked.symm.trans isParked) since before

theorem answered_closed (log : List Event) (frame : Frame) :
    answered (log ++ [.arrived frame .closed]) = answered log := by
  rw [answered_append]
  rfl

theorem Kept.overflow (kept : Kept s log) (isOpen : s.frames.isClosed = false)
    (refused : verdict = .overflowed ∨ verdict = .oversize) :
    Kept s.overflow (log ++ [.arrived frame verdict]) := by
  have before : answered log = none := by
    have sound : ¬ s.funnel.overflowed = true := by
      intro overflowed
      rw [kept.cut overflowed] at isOpen
      cases isOpen
    rw [kept.exceeded] at sound
    simpa using sound
  have since : answered (log ++ [.arrived frame verdict]) = some [] := by
    rw [answered_append, before]
    rcases refused with rfl | rfl <;> rfl
  refine kept.refuse ?_ rfl rfl rfl ?_ ?_ rfl
  · rcases refused with rfl | rfl <;> decide
  · simp [since, WasmWsConnection.overflow]
  · intro found isFound
    rw [since] at isFound
    exact .inl (Option.some.inj isFound).symm

theorem Kept.accept (kept : Kept s log) (isOpen : s.frames.isClosed = false)
    (small : frame.length ≤ maxFrameBytes)
    (budget : s.funnel.queuedBytes + frame.length ≤ frameQueueBytes)
    (room : s.frames.queue.length ≤ frameQueueCap) :
    Kept
      { s with
        frames := ⟨s.frames.queue ++ [frame], false⟩,
        funnel := { s.funnel with queuedBytes := s.funnel.queuedBytes + frame.length } }
      (log ++ [.arrived frame .accepted]) := by
  have same : answered (log ++ [.arrived frame .accepted]) = answered log := by
    rw [answered_append]
    rfl
  obtain ⟨accepted, unrefused⟩ := kept.whole isOpen
  refine { counted := ?_, within := budget, sized := ?_, slots := ?_, inOrder := ?_, first := ?_,
           final := ?_, ends := ?_, whole := fun _ => ⟨?_, ?_⟩, exceeded := ?_, cut := ?_,
           waiting := ?_ }
  · simp [kept.counted]
  · intro found mem
    rcases List.mem_append.mp mem with mem | mem
    · exact kept.sized found mem
    · rw [List.mem_singleton.mp mem]
      exact small
  · simpa using room
  · have inOrder := kept.inOrder
    simp [Event.accepted?, Event.returned?, inOrder]
  · simp [Event.accepted?, Event.arrived?, accepted]
  · rw [List.pairwise_append]
    refine ⟨kept.final, List.pairwise_singleton .., ?_⟩
    intro earlier mem _ _ refusal
    exact absurd refusal (unrefused earlier mem)
  · rw [same]
    exact kept.ends
  · simp [Event.accepted?, Event.arrived?, accepted]
  · intro event mem
    rcases List.mem_append.mp mem with mem | mem
    · exact unrefused event mem
    · rw [List.mem_singleton.mp mem]
      exact fun refused => refused rfl
  · rw [same]
    exact kept.exceeded
  · intro overflowed
    rw [kept.cut overflowed] at isOpen
    cases isOpen
  · rw [same]
    exact kept.waiting

theorem Kept.message (kept : Kept s log)
    (stepped : step s (.message text) = some (after, events)) : Kept after (log ++ events) := by
  have arrival := arrives s text
  unfold step at stepped
  dsimp only at stepped
  generalize s.funnelText text = outcome at arrival stepped
  cases stepped
  cases arrival with
  | closed isClosed =>
      refine kept.refuse ?_ rfl rfl isClosed ?_ ?_ rfl
      · intro same
        cases same
      · rw [answered_closed]
        exact kept.exceeded
      · intro since isSince
        rw [answered_closed] at isSince
        exact .inr isSince
  | oversize isOpen big => exact kept.overflow isOpen (.inr rfl)
  | overflowed isOpen small => exact kept.overflow isOpen (.inl rfl)
  | accepted isOpen small budget room => exact kept.accept isOpen small budget room

theorem Kept.close (kept : Kept s log) :
    Kept { s with frames := s.frames.closeChannel } (log ++ [.closed]) := by
  have same : answered (log ++ [.closed]) = answered log := by
    rw [answered_append]
    rfl
  refine { counted := kept.counted, within := kept.within, sized := kept.sized,
           slots := kept.slots, inOrder := ?_, first := ?_, final := ?_, ends := ?_,
           whole := ?_, exceeded := ?_, cut := fun _ => rfl, waiting := ?_ }
  · have inOrder := kept.inOrder
    simpa [Event.accepted?, Event.returned?, Channel.closeChannel] using inOrder
  · have first := kept.first
    simpa [Event.accepted?, Event.arrived?] using first
  · rw [List.pairwise_append]
    refine ⟨kept.final, List.pairwise_singleton .., ?_⟩
    intro _ _ later mem _
    rw [List.mem_singleton.mp mem]
    exact id
  · rw [same]
    exact kept.ends
  · intro isOpen
    cases isOpen
  · rw [same]
    exact kept.exceeded
  · rw [same]
    exact kept.waiting

/-- A `recv` is dropped, or finds nothing and waits. -/
theorem Kept.park (kept : Kept s log) {parked : Bool}
    (idle : parked = true → s.funnel.overflowed = false) : Kept { s with parked } log where
  toOrderly := { kept.toOrderly with }
  whole := kept.whole
  exceeded := kept.exceeded
  cut := kept.cut
  waiting isParked since isSince := by
    have exceeded := kept.exceeded.mpr (by rw [isSince]; rfl)
    rw [idle isParked] at exceeded
    cases exceeded

theorem Kept.answer (kept : Kept s log) {answer : Option Frame}
    (queue : s.frames.queue = answer.toList ++ after.frames.queue)
    (bytes : after.funnel.queuedBytes = s.funnel.queuedBytes - (answer.toList.map List.length).sum)
    (same : after.frames.isClosed = s.frames.isClosed)
    (exceeded : after.funnel.overflowed = s.funnel.overflowed) (unparked : after.parked = false)
    (ended : s.parked = false → s.funnel.overflowed = true → answer = none) :
    Kept after (log ++ [.returned answer]) := by
  have returned : [Event.returned answer].flatMap Event.returned? = answer.toList := by
    cases answer <;> rfl
  have accepted : (log ++ [Event.returned answer]).flatMap Event.accepted? =
      log.flatMap Event.accepted? := by simp [Event.accepted?]
  have arrived : (log ++ [Event.returned answer]).flatMap Event.arrived? =
      log.flatMap Event.arrived? := by simp [Event.arrived?]
  have since : answered (log ++ [.returned answer]) = (answered log).map (· ++ [answer]) := by
    rw [answered_append]
    rfl
  have counted := kept.counted
  rw [queue, List.map_append, List.sum_append] at counted
  have left : after.funnel.queuedBytes = (after.frames.queue.map List.length).sum := by
    rw [bytes, counted, Nat.add_sub_cancel_left]
  refine { counted := left, within := ?_, sized := ?_, slots := ?_, inOrder := ?_, first := ?_,
           final := ?_, ends := ?_, whole := ?_, exceeded := ?_, cut := ?_, waiting := ?_ }
  · rw [bytes]
    exact Nat.le_trans (Nat.sub_le ..) kept.within
  · intro frame mem
    apply kept.sized
    rw [queue]
    exact List.mem_append_right _ mem
  · have slots := kept.slots
    rw [queue, List.length_append] at slots
    exact Nat.le_trans (Nat.le_add_left ..) slots
  · rw [accepted, List.flatMap_append, returned, kept.inOrder, queue, List.append_assoc]
  · rw [accepted, arrived]
    exact kept.first
  · rw [List.pairwise_append]
    refine ⟨kept.final, List.pairwise_singleton .., ?_⟩
    intro _ _ later mem _
    rw [List.mem_singleton.mp mem]
    exact id
  · intro found isFound last mem
    rw [since] at isFound
    obtain ⟨before, isBefore, rfl⟩ := Option.map_eq_some_iff.mp isFound
    cases before with
    | nil => cases mem
    | cons first rest =>
        have isParked : s.parked = false := by
          by_contra parked
          have nothing := kept.waiting (eq_true_of_ne_false parked) _ isBefore
          cases nothing
        have overflowed := kept.exceeded.mpr (by rw [isBefore]; rfl)
        rcases List.mem_append.mp mem with mem | mem
        · exact kept.ends _ isBefore last mem
        · rw [List.mem_singleton.mp mem]
          exact ended isParked overflowed
  · intro isOpen
    rw [same] at isOpen
    obtain ⟨all, unrefused⟩ := kept.whole isOpen
    refine ⟨by rw [accepted, arrived, all], fun event mem => ?_⟩
    rcases List.mem_append.mp mem with mem | mem
    · exact unrefused event mem
    · rw [List.mem_singleton.mp mem]
      exact id
  · rw [since, exceeded, kept.exceeded]
    cases answered log <;> simp
  · intro overflowed
    rw [same]
    exact kept.cut (exceeded ▸ overflowed)
  · intro isParked
    rw [unparked] at isParked
    cases isParked

theorem Kept.poll (kept : Kept s log) : Kept s.recv.1 (log ++ s.recv.2) := by
  unfold WasmWsConnection.recv
  split
  next ended =>
    obtain ⟨isParked, overflowed⟩ := Bool.and_eq_true_iff.mp ended
    have unparked : s.parked = false := by simpa using isParked
    exact kept.answer rfl rfl rfl rfl unparked (fun _ _ => rfl)
  next going =>
    have ended : s.parked = false → s.funnel.overflowed = true → False := by
      intro unparked overflowed
      exact going (by rw [unparked, overflowed]; rfl)
    unfold WasmWsConnection.awaitNext Channel.pollNext
    cases queue : s.frames.queue with
    | cons frame rest =>
        refine kept.answer ?_ ?_ rfl rfl rfl ?_
        · rw [queue]
          rfl
        · simp
        · exact fun unparked overflowed => (ended unparked overflowed).elim
    | nil =>
        dsimp only
        cases isClosed : s.frames.isClosed with
        | true =>
            refine kept.answer ?_ ?_ rfl rfl rfl (fun _ _ => rfl)
            · rw [queue]
              exact queue.symm
            · rfl
        | false =>
            rw [if_neg (by decide), List.append_nil]
            apply kept.park
            intro _
            by_contra overflowed
            have cut := kept.cut (eq_true_of_ne_false overflowed)
            rw [isClosed] at cut
            cases cut

theorem kept_of_reachable (reached : Transition.Reachable step {} s log) : Kept s log := by
  refine reached.invariant _ kept_start fun {s log input after events} _ _ stepped kept => ?_
  cases input with
  | message text => exact kept.message stepped
  | close =>
      cases stepped
      exact kept.close
  | poll =>
      have recv : s.recv = (after, events) := Option.some.inj stepped
      have polled := kept.poll
      rwa [recv] at polled
  | drop =>
      cases stepped
      rw [List.append_nil]
      apply kept.park
      intro parked
      cases parked

/-- A closed stream answers every poll: with the next frame, or with its end where a limit was
passed before this `recv` began. -/
theorem recv_closed (isClosed : s.frames.isClosed = true) :
    s.recv.2 =
      [.returned (if !s.parked && s.funnel.overflowed then none else s.frames.queue.head?)] := by
  unfold WasmWsConnection.recv
  split
  · rfl
  · unfold WasmWsConnection.awaitNext Channel.pollNext
    cases s.frames.queue with
    | nil =>
        rw [isClosed]
        rfl
    | cons frame rest => rfl

/-- The funnel keeps its books and its order, and a stream that was closed comes to its end. -/
theorem orderly_of_reachable (reached : Transition.Reachable step {} s log) :
    Orderly s log ∧
      (s.frames.isClosed = true → s.recv.2 =
        [.returned (if !s.parked && s.funnel.overflowed then none else s.frames.queue.head?)]) :=
  ⟨(kept_of_reachable reached).toOrderly, recv_closed⟩

/-- A frame is queued for a `recv` that waits, and the socket closes. -/
theorem orderly_of_reachable_parked : ∃ s log, Transition.Reachable step {} s log ∧
    (Orderly s log ∧
      (s.frames.isClosed = true → s.recv.2 =
        [.returned (if !s.parked && s.funnel.overflowed then none else s.frames.queue.head?)])) ∧
      s.parked = true ∧ s.frames.queue = [[104, 105]] := by
  obtain ⟨outcome, same, held⟩ := Option.any_eq_true .. |>.mp
    (show (Transition.replay step {} [.poll, .message [104, 105], .close]).any
      (fun outcome => decide (outcome.1.parked = true ∧
        outcome.1.frames.queue = [[104, 105]])) = true by decide)
  have reached := Transition.reachable_of_replay same
  obtain ⟨parked, queue⟩ := of_decide_eq_true held
  exact ⟨outcome.1, outcome.2, reached, orderly_of_reachable reached, parked, queue⟩

/-- A frame that arrives after the close is refused, and two more frames are returned. -/
theorem two_after_refusal : ∃ s, Transition.Reachable step {} s
    [.arrived [97] .accepted, .arrived [98] .accepted, .closed, .arrived [99] .closed,
      .returned (some [97]), .returned (some [98])] := by
  obtain ⟨outcome, same, held⟩ := Option.any_eq_true .. |>.mp
    (show (Transition.replay step {} [.message [97], .message [98], .close, .message [99], .poll,
      .poll]).any (fun outcome => decide (outcome.2 =
        [.arrived [97] .accepted, .arrived [98] .accepted, .closed, .arrived [99] .closed,
          .returned (some [97]), .returned (some [98])])) = true by decide)
  have reached := Transition.reachable_of_replay same
  rw [of_decide_eq_true held] at reached
  exact ⟨outcome.1, reached⟩

end AimDb.Wasm.Funnel
