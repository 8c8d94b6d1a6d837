import AimDb.Mqtt.Subscriptions
import AimDb.Zenoh.Matching

/-!
# Inbound routes are subscribed

The two grammars are lawful, so no route they compile is left without a filter,
and on MQTT none is subscribed below the `qos` it asked for.
-/

namespace AimDb.Router

open Topic

/-- No inbound route is left unsubscribed or under-subscribed. -/
theorem inbound_noneLeftOut (records : List RecordEntry) (scheme : Str) :
    (∀ dispatch, InboundDispatch.new records scheme Mqtt.mqttGrammar = .ok dispatch →
      NoneLeftOut Mqtt.Matched dispatch ∧
      ∀ assigned, Mqtt.subscriptions dispatch = .ok assigned →
      Mqtt.Granted dispatch assigned) ∧
    (∀ dispatch, InboundDispatch.new records scheme Zenoh.zenohGrammar = .ok dispatch →
      NoneLeftOut Zenoh.Matched dispatch) := by
  constructor
  · intro dispatch built
    have dispatched := dispatched_of_new built
    exact ⟨Mqtt.lawful.noneLeftOut dispatched, fun assigned ok => Mqtt.granted dispatched ok⟩
  · intro dispatch built
    exact Zenoh.lawful.noneLeftOut (dispatched_of_new built)

/-- Links on one topic each, the first one at the highest `qos`. -/
def sampleRecords (topics : List Str) : List RecordEntry :=
  topics.zipIdx.map fun (topic, i) =>
    { key := topic
      inboundConnectors := [{
        scheme := ['m'], url := topic, topic := topic, key := none,
        config := if i = 0 then [("qos".toList, ['2'])] else [] }] }

/-- An exact link under a pattern that covers it, and one under `$`; then a
verbatim chunk no pattern covers. -/
theorem inbound_noneLeftOut_sample :
    (∃ dispatch assigned,
      InboundDispatch.new (sampleRecords ["a/b".toList, "a/{x}".toList, "$s/+".toList]) ['m']
        Mqtt.mqttGrammar = .ok dispatch ∧
      Mqtt.subscriptions dispatch = .ok assigned ∧
      assigned = [⟨"$s/+".toList, 1⟩, ⟨"a/+".toList, 2⟩] ∧
      NoneLeftOut Mqtt.Matched dispatch ∧ Mqtt.Granted dispatch assigned) ∧
    (∃ dispatch,
      InboundDispatch.new (sampleRecords ["a/@b".toList, "a/{x..}/*".toList, "a/c$*".toList]) ['m']
        Zenoh.zenohGrammar = .ok dispatch ∧
      dispatch.subscriptions = ["a/*/**".toList, "a/@b".toList] ∧
      NoneLeftOut Zenoh.Matched dispatch) := by
  constructor
  · have values : ((InboundDispatch.new
        (sampleRecords ["a/b".toList, "a/{x}".toList, "$s/+".toList]) ['m']
        Mqtt.mqttGrammar).toOption.bind fun dispatch => (Mqtt.subscriptions dispatch).toOption) =
          some [⟨"$s/+".toList, 1⟩, ⟨"a/+".toList, 2⟩] := by
      decide +kernel
    cases built : InboundDispatch.new
        (sampleRecords ["a/b".toList, "a/{x}".toList, "$s/+".toList]) ['m'] Mqtt.mqttGrammar with
    | error errors =>
        rw [built] at values
        cases values
    | ok dispatch =>
        rw [built] at values
        obtain ⟨noneLeftOut, granted⟩ := (inbound_noneLeftOut _ _).1 dispatch built
        cases ok : Mqtt.subscriptions dispatch with
        | error problems => simp [Except.toOption, ok] at values
        | ok assigned =>
            refine ⟨dispatch, assigned, rfl, ok, ?_, noneLeftOut, granted assigned ok⟩
            simpa only [Except.toOption, Option.bind_some, ok, Option.some.injEq] using values
  · have values : ((InboundDispatch.new
        (sampleRecords ["a/@b".toList, "a/{x..}/*".toList, "a/c$*".toList]) ['m']
        Zenoh.zenohGrammar).toOption.map InboundDispatch.subscriptions) =
          some ["a/*/**".toList, "a/@b".toList] := by
      decide +kernel
    cases built : InboundDispatch.new
        (sampleRecords ["a/@b".toList, "a/{x..}/*".toList, "a/c$*".toList]) ['m']
        Zenoh.zenohGrammar with
    | error errors =>
        rw [built] at values
        cases values
    | ok dispatch =>
        rw [built] at values
        refine ⟨dispatch, rfl, ?_, (inbound_noneLeftOut _ _).2 dispatch built⟩
        exact Option.some.inj values

end AimDb.Router
