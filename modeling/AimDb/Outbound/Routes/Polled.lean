import AimDb.Outbound.Routes

/-!
# What polling one route does

The slices of a route lie in the regions of the scratch, so what it writes stands where the
staged message is taken from.
-/

namespace AimDb.Outbound.Routes

open Json (Bytes utf8 fromUtf8?)

variable {V Ctx : Type} {links : List (Link V Ctx)} {link : Link V Ctx} {s : OutboundRoutes}
  {id : ℕ} {ctx : Ctx} {sample : Sample V}

/-- What becomes of a value in a payload slice that held other bytes before. -/
def Link.verdict (link : Link V Ctx) (id : ℕ) (ctx : Ctx) (sample : Sample V) (before : Bytes) :
    Verdict :=
  match topicOf link.route link.info.topicCapacity sample.value with
  | none => .topicOverflow
  | some topic =>
      match payloadOf link.route ctx sample.value before with
      | .error failure => .serializeFailed failure
      | .ok payload => .sent ⟨id, topic.getD link.info.defaultTopic, payload, sample.metadata⟩

theorem le_largest {n : ℕ} {ns : List ℕ} (mem : n ∈ ns) : n ≤ ns.foldr max 0 := by
  induction ns with
  | nil => cases mem
  | cons m ns inductionHypothesis =>
      rw [List.foldr_cons]
      rcases List.mem_cons.mp mem with rfl | mem
      · exact Nat.le_max_left _ _
      · exact Nat.le_trans (inductionHypothesis mem) (Nat.le_max_right _ _)

theorem topicCapacity_le (isLink : links[id]? = some link) :
    link.info.topicCapacity ≤ topicRegion links :=
  le_largest (List.mem_map_of_mem (List.mem_of_getElem? isLink))

theorem payloadCapacity_le (isLink : links[id]? = some link) :
    link.info.payloadCapacity ≤ payloadRegion links :=
  le_largest (List.mem_map_of_mem (List.mem_of_getElem? isLink))

theorem length_restore {region slice : Bytes} (fits : slice.length ≤ region.length) :
    (restore region slice).length = region.length := by
  simp [restore]
  omega

theorem take_restore {region slice : Bytes} {len : ℕ} (fits : len ≤ slice.length) :
    (restore region slice).take len = slice.take len :=
  List.take_append_of_le_length fits

theorem topicText_restore {defaultTopic : String} {region slice : Bytes} {topicLen : Option ℕ}
    (fits : ∀ len, topicLen = some len → len ≤ slice.length) :
    topicText defaultTopic (restore region slice) topicLen =
      topicText defaultTopic slice topicLen := by
  cases topicLen with
  | none => rfl
  | some len => rw [topicText, topicText, take_restore (fits len rfl)]

theorem payloadBytes_restore {region slice : Bytes} {payload : StagedPayload}
    (fits : ∀ len, payload = .scratch len → len ≤ slice.length) :
    payloadBytes (restore region slice) payload = payloadBytes slice payload := by
  cases payload with
  | scratch len => exact take_restore (fits len rfl)
  | owned bytes => rfl

/-- A value is turned into what its route makes of it, within the slices. -/
inductive Sampled (link : Link V Ctx) (id : ℕ) (ctx : Ctx) (sample : Sample V)
    (topic payload : Bytes) : RouteOutcome × Bytes × Bytes → Prop
  | overflows {topic' : Bytes} : topic'.length = topic.length →
      link.verdict id ctx sample payload = .topicOverflow →
      Sampled link id ctx sample topic payload (.topicOverflow, topic', payload)
  | fails {topic' payload' : Bytes} {failure : SerializeFailure} :
      topic'.length = topic.length → payload'.length = payload.length →
      link.verdict id ctx sample payload = .serializeFailed failure →
      Sampled link id ctx sample topic payload (.serializeFailed failure, topic', payload')
  | stages {topic' payload' : Bytes} {topicLen : Option ℕ} {staged : StagedPayload} :
      topic'.length = topic.length → payload'.length = payload.length →
      (∀ len, topicLen = some len → len ≤ topic'.length) →
      (∀ len, staged = .scratch len → len ≤ payload'.length) →
      link.verdict id ctx sample payload = .sent ⟨id,
        topicText link.info.defaultTopic topic' topicLen, payloadBytes payload' staged,
        sample.metadata⟩ →
      Sampled link id ctx sample topic payload
        (.staged topicLen staged sample.metadata, topic', payload')

theorem sampled (link : Link V Ctx) (id : ℕ) (ctx : Ctx) (sample : Sample V) {topic : Bytes}
    (payload : Bytes) (sized : topic.length = link.info.topicCapacity) :
    Sampled link id ctx sample topic payload (pollSample link.route ctx sample topic payload) := by
  obtain ⟨topicSize, topicFits, topicSame⟩ :=
    pollTopic_spec link.route link.info.defaultTopic sample.value topic
  obtain ⟨payloadSize, payloadFits⟩ :=
    serializeOutbound_spec link.route ctx sample.value payload
  rw [sized] at topicSame
  unfold pollSample
  cases writes : pollTopic link.route sample.value topic with
  | mk topic' written =>
      rw [writes] at topicSize topicFits topicSame
      cases written with
      | none =>
          have overflow := (Option.map_eq_none_iff.mp topicSame.symm)
          exact .overflows topicSize (by simp [Link.verdict, overflow])
      | some topicLen =>
          obtain ⟨own, isOwn, text⟩ := Option.map_eq_some_iff.mp topicSame.symm
          cases serializes : serializeOutbound link.route ctx sample.value payload with
          | mk payload' result =>
              rw [serializes] at payloadSize payloadFits
              have bytes : payloadOf link.route ctx sample.value payload =
                  result.map (payloadBytes payload') := by
                rw [payloadOf, serializes]
              cases result with
              | error failure =>
                  exact .fails topicSize payloadSize
                    (by simp [Link.verdict, isOwn, bytes, Except.map])
              | ok staged =>
                  refine .stages topicSize payloadSize (fun len same => ?_) (fun len same => ?_) ?_
                  · rw [topicSize]
                    exact topicFits len (congrArg some same)
                  · rw [payloadSize]
                    exact payloadFits len (congrArg Except.ok same)
                  · simp [Link.verdict, isOwn, bytes, Except.map, text]

/-- Topic region and payload region. -/
def Sized (links : List (Link V Ctx)) (s : OutboundRoutes) : Prop :=
  s.scratch.length = topicRegion links + payloadRegion links

def Verdict.counts (stats : RouteStats) : Verdict → RouteStats
  | .sent _ => { stats with sent := stats.sent + 1 }
  | .topicOverflow => { stats with topicOverflow := stats.topicOverflow + 1 }
  | .serializeFailed _ => { stats with serializeFailed := stats.serializeFailed + 1 }

def Verdict.message? : Verdict → Option OutboundMessage
  | .sent message => some message
  | _ => none

/-- A verdict that is the value's own, whatever its payload slice held. -/
def Link.Owns (link : Link V Ctx) (id : ℕ) (ctx : Ctx) (sample : Sample V) (verdict : Verdict) :
    Prop :=
  ∃ before : Bytes, before.length = link.info.payloadCapacity ∧
    link.verdict id ctx sample before = verdict

theorem message_append {topic payload : Bytes} (size : topic.length = topicRegion links)
    (isLink : links[id]? = some link) {topicLen : Option ℕ} {staged : StagedPayload}
    {metadata : WriteMetadata} :
    message links { s with scratch := topic ++ payload } ⟨id, topicLen, staged, metadata⟩ =
      some ⟨id, topicText link.info.defaultTopic topic topicLen, payloadBytes payload staged,
        metadata⟩ := by
  unfold message topicBuf payloadBuf
  dsimp only
  rw [isLink, List.take_left' size, List.drop_left' size]
  rfl

/-- A poll reads nothing, or counts one value or one lag; it stages what it counts as sent. -/
inductive Polls (links : List (Link V Ctx)) (link : Link V Ctx) (s : OutboundRoutes) (id : ℕ)
    (ctx : Ctx) : Polled × OutboundRoutes × List (Happened V Ctx) → Prop
  | quiet {polled : Polled} {scratch : Bytes} : polled ≠ .staged →
      scratch.length = s.scratch.length →
      Polls links link s id ctx (polled, { s with scratch }, [])
  | lags {scratch : Bytes} (n : UInt64) : scratch.length = s.scratch.length →
      Polls links link s id ctx (.skipped, count { s with scratch } id
        fun stats => { stats with lagged := stats.lagged + n.toNat }, [.lagged id n])
  | skips {scratch : Bytes} {sample : Sample V} {verdict : Verdict} :
      scratch.length = s.scratch.length → link.Owns id ctx sample verdict →
      verdict.message? = none →
      Polls links link s id ctx (.skipped, count { s with scratch } id verdict.counts,
        [.read id ctx sample verdict])
  | stages {scratch : Bytes} {sample : Sample V} {staged : Staged} {taken : OutboundMessage} :
      scratch.length = s.scratch.length → link.Owns id ctx sample (.sent taken) →
      staged.id = id → message links { s with scratch } staged = some taken →
      Polls links link s id ctx (.staged,
        { count { s with scratch } id (Verdict.sent taken).counts with staged := some staged },
        [.read id ctx sample (.sent taken)])

theorem polls (isLink : links[id]? = some link) (sized : Sized links s) (ctx : Ctx)
    (reading : Reading V) : Polls links link s id ctx (poll links s link id ctx reading) := by
  have topicSize : (topicBuf links s).length = topicRegion links := by
    rw [topicBuf, List.length_take, sized]
    omega
  have payloadSize : (payloadBuf links s).length = payloadRegion links := by
    rw [payloadBuf, List.length_drop, sized]
    omega
  have topicSlice : ((topicBuf links s).take link.info.topicCapacity).length =
      link.info.topicCapacity := by
    have fits := topicCapacity_le isLink
    rw [List.length_take, topicSize]
    omega
  have payloadSlice : ((payloadBuf links s).take link.info.payloadCapacity).length =
      link.info.payloadCapacity := by
    have fits := payloadCapacity_le isLink
    rw [List.length_take, payloadSize]
    omega
  -- the regions keep their lengths whatever a slice was overwritten with
  have scratchSize : ∀ topic payload : Bytes, topic.length = link.info.topicCapacity →
      payload.length = link.info.payloadCapacity →
      (restore (topicBuf links s) topic ++ restore (payloadBuf links s) payload).length =
        s.scratch.length := by
    intro topic payload topicLength payloadLength
    have topicFits := topicCapacity_le isLink
    have payloadFits := payloadCapacity_le isLink
    rw [List.length_append, length_restore (by omega), length_restore (by omega), topicSize,
      payloadSize, sized]
  unfold poll
  rcases reading with - | (error | sample)
  · exact .quiet (by decide) (scratchSize _ _ topicSlice payloadSlice)
  · cases error with
    | bufferLagged n => exact .lags n (scratchSize _ _ topicSlice payloadSlice)
    | _ => exact .quiet (by decide) (scratchSize _ _ topicSlice payloadSlice)
  · have did := sampled link id ctx sample ((payloadBuf links s).take link.info.payloadCapacity)
      topicSlice
    unfold pollRoute
    dsimp only
    generalize pollSample link.route ctx sample _ _ = polled at did
    cases did with
    | overflows topicKept own =>
        exact .skips (scratchSize _ _ (topicKept.trans topicSlice) payloadSlice)
          ⟨_, payloadSlice, own⟩ rfl
    | fails topicKept payloadKept own =>
        have owned : link.Owns id ctx sample (.serializeFailed _) := ⟨_, payloadSlice, own⟩
        exact .skips
          (scratchSize _ _ (topicKept.trans topicSlice) (payloadKept.trans payloadSlice)) owned rfl
    | @stages topic' payload' topicLen staged topicKept payloadKept topicFits payloadFits own =>
        refine .stages
          (scratchSize _ _ (topicKept.trans topicSlice) (payloadKept.trans payloadSlice))
          ⟨_, payloadSlice, own⟩ rfl ?_
        have topicLength : (restore (topicBuf links s) topic').length = topicRegion links := by
          have fits := topicCapacity_le isLink
          rw [length_restore (by omega), topicSize]
        rw [message_append topicLength isLink, topicText_restore topicFits,
          payloadBytes_restore payloadFits]

end AimDb.Outbound.Routes
