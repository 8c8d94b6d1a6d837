import AimDb.Mqtt.Native
import AimDb.Mqtt.Subscriptions
import AimDb.Containers.Assoc

/-!
# Silent inbound routes

A subscription is queued once, by `buildInternal`.  Sent or dropped before a connection
ends, it is gone: the broker forgets it, and neither the library nor the event loop asks
again.
-/

namespace AimDb.Mqtt.Native

open Topic

namespace Rumqttc

theorem foldl_grant (wires : List (Str × QoS)) (filter : Str) :
    wires.foldl grant forgotten filter = wires.reverse.lookup filter := by
  induction wires using List.reverseRecOn with
  | nil => rfl
  | append_singleton wires last inductionHypothesis =>
      rw [List.foldl_append, List.reverse_append, List.foldl_cons, List.foldl_nil,
        List.reverse_singleton, List.singleton_append, List.lookup_cons, ← inductionHypothesis]
      unfold grant
      by_cases same : filter = last.1
      · rw [if_pos same, beq_iff_eq.mpr same]
      · rw [if_neg same, beq_eq_false_iff_ne.mpr same]

theorem grant_ne {granted : Str → Option QoS} {wire : Str × QoS} {filter : Str}
    (other : wire.1 ≠ filter) : grant granted wire filter = granted filter :=
  if_neg (Ne.symm other)

variable {lib : Rumqttc} {client after : lib.State} {occurrence : Occurrence}

/-- What is seen of anything but a new subscription. -/
inductive Effect (lib : Rumqttc) (client : lib.State) : Occurrence → lib.State → Prop
  | joins {after : lib.State} : lib.connected client = false → lib.connected after = true →
      lib.subscribes after <:+ lib.subscribes client → lib.granted after = lib.granted client →
      lib.react client (.polled .connAck) = some after →
      Effect lib client (.polled .connAck) after
  | sends {after : lib.State} {occurrence : Occurrence} (wire : Str × QoS) :
      lib.subscribes client = wire :: lib.subscribes after →
      lib.connected after = lib.connected client →
      lib.granted after =
        (if lib.connected client then grant (lib.granted client) wire else lib.granted client) →
      Effect lib client occurrence after
  | ends {after : lib.State} {occurrence : Occurrence} : lib.connected after = false →
      lib.subscribes after <:+ lib.subscribes client → lib.granted after = forgotten →
      Effect lib client occurrence after
  | idles {after : lib.State} {occurrence : Occurrence} :
      lib.connected after = lib.connected client →
      lib.subscribes after = lib.subscribes client → lib.granted after = lib.granted client →
      Effect lib client occurrence after

theorem Documented.effect (documented : lib.Documented)
    (reacted : lib.react client occurrence = some after)
    (old : ∀ request, occurrence = .requested request → request.subscribes = none) :
    Effect lib client occurrence after := by
  cases occurrence with
  | requested request =>
      obtain ⟨link, unsent, granted⟩ := documented.requested reacted
      refine .idles link ?_ granted
      rw [subscribes, unsent, List.filterMap_append, List.filterMap_cons_none (old request rfl)]
      exact List.append_nil _
  | ended =>
      obtain ⟨down, same, granted⟩ := documented.ended reacted
      exact .ends down (same ▸ List.suffix_rfl) granted
  | polled outcome =>
      cases outcome with
      | connAck =>
          obtain ⟨down, up, rest, granted⟩ := documented.connAck reacted
          exact .joins down up rest granted reacted
      | outgoing request =>
          obtain ⟨unsent, link, granted⟩ := documented.outgoing reacted
          cases request with
          | subscribe filter qos =>
              refine .sends (filter, qos) ?_ link granted
              rw [subscribes, unsent]
              rfl
          | publish topic qos retain payload =>
              refine .idles link ?_ (granted.trans (ite_self _))
              rw [subscribes, subscribes, unsent]
              rfl
      | publish topic payload =>
          obtain ⟨link, same, granted⟩ := documented.publish reacted
          exact .idles link same granted
      | other =>
          obtain ⟨link, same, granted⟩ := documented.other reacted
          exact .idles link same granted
      | error text =>
          obtain ⟨down, rest, granted⟩ := documented.error reacted
          exact .ends down rest granted

end Rumqttc

variable {lib : Rumqttc} {config : Config}

inductive Stepped (lib : Rumqttc) : State lib → Input → State lib → Prop
  | subscribe {client after : lib.State} {first : Subscription} {rest : List Subscription} :
      lib.react client (.requested (.subscribe first.filter (rumqttQos first.qos))) = some after →
      Stepped lib ⟨client, .building (first :: rest)⟩ .subscribe ⟨after, .building rest⟩
  | fails {client : lib.State} {rest : List Subscription} {e message : String} :
      Stepped lib ⟨client, .building rest⟩ (.subscribeFailed e) ⟨client, .failed message⟩
  | built {client : lib.State} :
      Stepped lib ⟨client, .building []⟩ .built ⟨client, .running false⟩
  | ended {client after : lib.State} {task : Task} : lib.react client .ended = some after →
      Stepped lib ⟨client, task⟩ .ended ⟨after, task⟩
  | stays {client : lib.State} {input : Input} {sleeping sleeps : Bool} :
      (∀ outcome, input ≠ .poll outcome) →
      Stepped lib ⟨client, .running sleeping⟩ input ⟨client, .running sleeps⟩
  | publish {client after : lib.State} {input : Input} {request : Request} {sleeping : Bool} :
      lib.react client (.requested request) = some after → request.subscribes = none →
      (∀ outcome, input ≠ .poll outcome) →
      Stepped lib ⟨client, .running sleeping⟩ input ⟨after, .running sleeping⟩
  | polls {client after : lib.State} {outcome : Polled} {sleeps : Bool} :
      lib.react client (.polled outcome) = some after →
      Stepped lib ⟨client, .running false⟩ (.poll outcome) ⟨after, .running sleeps⟩

theorem stepped_of_step {s s' : State lib} {input : Input} {events : List Event}
    (stepped : step lib config s input = some (s', events)) : Stepped lib s input s' := by
  obtain ⟨client, task⟩ := s
  unfold step at stepped
  split at stepped
  case h_9 => cases stepped
  all_goals
    rename_i same
    simp only [Option.map_eq_some_iff, Option.some.injEq, Prod.mk.injEq] at stepped
  case h_1 =>
    obtain ⟨after, reacted, rfl, -⟩ := stepped
    obtain rfl : task = _ := same
    exact .subscribe reacted
  case h_2 =>
    obtain ⟨rfl, -⟩ := stepped
    obtain rfl : task = _ := same
    exact .fails
  case h_3 =>
    obtain ⟨rfl, -⟩ := stepped
    obtain rfl : task = _ := same
    exact .built
  case h_4 =>
    obtain ⟨after, reacted, rfl, -⟩ := stepped
    obtain rfl : task = _ := same
    exact .polls reacted
  case h_5 =>
    obtain ⟨rfl, -⟩ := stepped
    obtain rfl : task = _ := same
    exact .stays fun _ other => by cases other
  case h_6 =>
    obtain ⟨after, reacted, rfl, -⟩ := stepped
    obtain rfl : task = _ := same
    exact .publish reacted rfl fun _ other => by cases other
  case h_7 =>
    obtain ⟨rfl, -⟩ := stepped
    obtain rfl : task = _ := same
    exact .stays fun _ other => by cases other
  case h_8 =>
    obtain ⟨after, reacted, rfl, -⟩ := stepped
    exact .ended reacted

/-- While the tasks run, the library goes through one occurrence or none. -/
theorem Stepped.effect (documented : lib.Documented) {s s' : State lib} {input : Input}
    (stepped : Stepped lib s input s') {sleeping : Bool} (running : s.task = .running sleeping) :
    (∃ sleeps, s'.task = .running sleeps) ∧
      ∃ occurrence, Rumqttc.Effect lib s.client occurrence s'.client ∧
        (occurrence = .polled .connAck → input = .poll .connAck) := by
  cases stepped with
  | subscribe => cases running
  | fails => cases running
  | built => cases running
  | ended reacted =>
      refine ⟨⟨sleeping, running⟩, .ended, documented.effect reacted ?_,
        fun same => by cases same⟩
      intro request same
      cases same
  | stays => exact ⟨⟨_, rfl⟩, .ended, .idles rfl rfl rfl, fun same => by cases same⟩
  | publish reacted old _ =>
      refine ⟨⟨_, rfl⟩, _, documented.effect reacted ?_, fun same => by cases same⟩
      rintro request ⟨⟩
      exact old
  | polls reacted =>
      refine ⟨⟨_, rfl⟩, _, documented.effect reacted ?_, ?_⟩
      · intro request same
        cases same
      · rintro ⟨⟩
        rfl

def Config.wires (config : Config) : List (Str × QoS) := config.subscriptions.map wire

structure Queued (config : Config) (s : State lib) : Prop where
  down : lib.connected s.client = false → lib.granted s.client = Rumqttc.forgotten
  unconnected : (∀ sleeping, s.task ≠ .running sleeping) → lib.connected s.client = false
  building : ∀ rest, s.task = .building rest →
    lib.subscribes s.client ++ rest.map wire = config.wires
  running : ∀ sleeping, s.task = .running sleeping → lib.subscribes s.client <:+ config.wires

theorem Rumqttc.Effect.down {client after : lib.State} {occurrence : Occurrence}
    (effect : Rumqttc.Effect lib client occurrence after)
    (down : lib.connected client = false → lib.granted client = forgotten)
    (isDown : lib.connected after = false) : lib.granted after = forgotten := by
  cases effect with
  | joins _ up => exact absurd isDown (by simp [up])
  | sends wire _ link granted =>
      have before : lib.connected client = false := link.symm.trans isDown
      rw [granted, before]
      exact down before
  | ends _ _ granted => exact granted
  | idles link _ granted => exact granted.trans (down (link.symm.trans isDown))

theorem Rumqttc.Effect.suffix {client after : lib.State} {occurrence : Occurrence}
    (effect : Rumqttc.Effect lib client occurrence after) :
    lib.subscribes after <:+ lib.subscribes client := by
  cases effect with
  | joins _ _ rest _ _ => exact rest
  | sends wire same _ _ => exact same ▸ List.suffix_cons wire _
  | ends _ rest _ => exact rest
  | idles _ same _ => exact same ▸ List.suffix_rfl

theorem queued_start (documented : lib.Documented) : Queued config (start lib config) where
  down _ := documented.new_granted _
  unconnected _ := documented.new_connected _
  building := by
    rintro rest ⟨⟩
    rw [Rumqttc.subscribes, start, documented.new_unsent]
    rfl
  running sleeping same := by cases same

theorem Queued.step (documented : lib.Documented) {s s' : State lib} {input : Input}
    (queued : Queued config s) (stepped : Stepped lib s input s') : Queued config s' := by
  by_cases isRunning : ∃ sleeping, s.task = .running sleeping
  · obtain ⟨sleeping, running⟩ := isRunning
    obtain ⟨⟨sleeps, still⟩, occurrence, effect, -⟩ := stepped.effect documented running
    constructor
    · exact effect.down queued.down
    · exact fun other => absurd still (other sleeps)
    · exact fun rest same => absurd (still.symm.trans same) (by simp)
    · exact fun _ _ => effect.suffix.trans (queued.running sleeping running)
  · have unconnected := queued.unconnected fun sleeping same => isRunning ⟨sleeping, same⟩
    have granted := queued.down unconnected
    cases stepped with
    | @subscribe client after first rest reacted =>
        obtain ⟨link, unsent, kept⟩ := documented.requested reacted
        refine ⟨fun _ => kept.trans granted, fun _ => link.trans unconnected, ?_, ?_⟩
        · rintro _ ⟨⟩
          have requested : lib.subscribes after = lib.subscribes client ++ [wire first] := by
            rw [Rumqttc.subscribes, unsent, List.filterMap_append]
            rfl
          rw [requested, List.append_assoc]
          exact queued.building _ rfl
        · intro _ same
          cases same
    | fails =>
        refine ⟨fun _ => granted, fun _ => unconnected, ?_, ?_⟩
        · intro _ same
          cases same
        · intro _ same
          cases same
    | built =>
        refine ⟨fun _ => granted, fun _ => unconnected, ?_, ?_⟩
        · intro _ same
          cases same
        · intro _ _
          have whole := queued.building [] rfl
          rw [List.map_nil, List.append_nil] at whole
          exact whole ▸ List.suffix_rfl
    | ended reacted =>
        obtain ⟨down, same, forgotten⟩ := documented.ended reacted
        refine ⟨fun _ => forgotten, fun _ => down, ?_, fun sleeping at' => ?_⟩
        · intro rest building
          exact same ▸ queued.building rest building
        · exact absurd ⟨sleeping, at'⟩ isRunning
    | stays => exact absurd ⟨_, rfl⟩ isRunning
    | publish => exact absurd ⟨_, rfl⟩ isRunning
    | polls => exact absurd ⟨_, rfl⟩ isRunning

theorem Run.queued (documented : lib.Documented) {s : State lib} {log : List Event}
    (run : Run lib config s log) : Queued config s :=
  Transition.Reaches.invariant (fun s _ => Queued config s) (queued_start documented)
    (fun _ _ stepped queued => queued.step documented (stepped_of_step stepped)) run

def Config.asked (config : Config) (filter : Str) : Option QoS :=
  config.wires.reverse.lookup filter

/-- The broker holds a subscription for each filter, at its QoS. -/
def Subscribed (config : Config) (s : State lib) : Prop :=
  ∀ subscription ∈ config.subscriptions,
    lib.granted s.client subscription.filter = config.asked subscription.filter

structure Settled (s : State lib) : Prop where
  up : lib.connected s.client = true
  sent : lib.unsent s.client = []

def AllQueued (lib : Rumqttc) (config : Config) (client : lib.State) : Prop :=
  ∀ subscription ∈ config.subscriptions, ∃ qos,
    (subscription.filter, qos) ∈ lib.subscribes client

/-- A connection leaves a subscription queued for every filter. -/
def Unspent (config : Config) (s : State lib) (input : Input) : Prop :=
  input = .poll .connAck → ∀ after, lib.react s.client (.polled .connAck) = some after →
    AllQueued lib config after

/-- What will be granted once the queue is sent. -/
def Promised (config : Config) (s : State lib) : Prop :=
  lib.connected s.client = true → ∀ subscription ∈ config.subscriptions,
    (lib.subscribes s.client).foldl Rumqttc.grant (lib.granted s.client) subscription.filter =
      config.asked subscription.filter

/-- The broker does not know the filter, and nothing will tell it. -/
structure Lost (filter : Str) (s : State lib) : Prop where
  running : ∃ sleeping, s.task = .running sleeping
  unqueued : ∀ wire ∈ lib.subscribes s.client, wire.1 ≠ filter
  ungranted : lib.granted s.client filter = none

theorem promised_of_allQueued {client : lib.State} (isRest : lib.subscribes client <:+ config.wires)
    (forgotten : lib.granted client = Rumqttc.forgotten) (all : AllQueued lib config client)
    {subscription : Subscription} (isOne : subscription ∈ config.subscriptions) :
    (lib.subscribes client).foldl Rumqttc.grant (lib.granted client) subscription.filter =
      config.asked subscription.filter := by
  obtain ⟨gone, whole⟩ := isRest
  obtain ⟨qos, waiting⟩ := all subscription isOne
  rw [forgotten, Rumqttc.foldl_grant, Config.asked, ← whole, List.reverse_append,
    List.lookup_append]
  cases found : (lib.subscribes client).reverse.lookup subscription.filter with
  | some _ => rfl
  | none =>
      have absent := List.lookup_eq_none_iff.mp found _ (List.mem_reverse.mpr waiting)
      exact absurd rfl (bne_iff_ne.mp absent)

theorem Promised.step (documented : lib.Documented) {s s' : State lib} {input : Input}
    (queued : Queued config s) (unspent : Unspent config s input) (promised : Promised config s)
    (stepped : Stepped lib s input s') : Promised config s' := by
  intro up subscription isOne
  by_cases isRunning : ∃ sleeping, s.task = .running sleeping
  · obtain ⟨sleeping, running⟩ := isRunning
    obtain ⟨-, occurrence, effect, acknowledged⟩ := stepped.effect documented running
    cases effect with
    | joins down _ rest granted reacted =>
        exact promised_of_allQueued (rest.trans (queued.running sleeping running))
          (granted.trans (queued.down down)) (unspent (acknowledged rfl) _ reacted) isOne
    | sends wire same link granted =>
        have before : lib.connected s.client = true := link.symm.trans up
        rw [granted, if_pos before, ← List.foldl_cons, ← same]
        exact promised before subscription isOne
    | ends down => exact absurd up (by simp [down])
    | idles link same granted =>
        rw [same, granted]
        exact promised (link.symm.trans up) subscription isOne
  · have down := queued.unconnected fun sleeping same => isRunning ⟨sleeping, same⟩
    cases stepped with
    | subscribe reacted =>
        have link := (documented.requested reacted).1
        exact absurd (link.symm.trans up) (by simp [down])
    | fails => exact absurd up (by simp [down])
    | built => exact absurd up (by simp [down])
    | ended reacted => exact absurd up (by simp [(documented.ended reacted).1])
    | stays => exact absurd ⟨_, rfl⟩ isRunning
    | publish => exact absurd ⟨_, rfl⟩ isRunning
    | polls => exact absurd ⟨_, rfl⟩ isRunning

theorem Lost.step (documented : lib.Documented) {filter : Str} {s s' : State lib} {input : Input}
    (lost : Lost filter s) (stepped : Stepped lib s input s') : Lost filter s' := by
  obtain ⟨sleeping, running⟩ := lost.running
  obtain ⟨still, occurrence, effect, -⟩ := stepped.effect documented running
  refine ⟨still, fun wire waiting => lost.unqueued wire (effect.suffix.mem waiting), ?_⟩
  cases effect with
  | joins _ _ _ granted _ => exact granted ▸ lost.ungranted
  | sends wire same _ granted =>
      rw [granted]
      split
      · rw [Rumqttc.grant_ne (lost.unqueued wire (same ▸ List.mem_cons_self))]
        exact lost.ungranted
      · exact lost.ungranted
  | ends _ _ granted => exact granted ▸ rfl
  | idles _ _ granted => exact granted ▸ lost.ungranted

theorem asked_ne_none {subscription : Subscription}
    (isOne : subscription ∈ config.subscriptions) :
    config.asked subscription.filter ≠ none := by
  intro absent
  have isWire : wire subscription ∈ config.wires.reverse :=
    List.mem_reverse.mpr (List.mem_map_of_mem isOne)
  exact absurd rfl (bne_iff_ne.mp (List.lookup_eq_none_iff.mp absent _ isWire))

structure SubscribedWhile (lib : Rumqttc) (config : Config) : Prop where
  unspent : ∀ s log,
    Transition.Reaches (step lib config) (Unspent config) (start lib config) s log →
      Settled s → Subscribed config s
  spent : ∀ s log after events, Run lib config s log →
    step lib config s (.poll .connAck) = some (after, events) →
      ¬ AllQueued lib config after.client →
      ∀ last more, Transition.Reachable (step lib config) after last more →
        ¬ Subscribed config last

/-- The broker holds every subscription as long as every connection finds all of them
queued.  After the first that does not, an inbound route is silent for good. -/
theorem subscribedWhile_unspent (documented : lib.Documented) : SubscribedWhile lib config := by
  constructor
  · intro s log reached settled
    have promised : Queued config s ∧ Promised config s := by
      apply Transition.Reaches.invariant
        (fun s _ => Queued config s ∧ Promised config s) ?_ ?_ reached
      · refine ⟨queued_start documented, fun up => ?_⟩
        exact absurd up (by simp [start, documented.new_connected])
      · intro before _ input after _ _ unspent stepped held
        have done := stepped_of_step stepped
        exact ⟨held.1.step documented done, held.2.step documented held.1 unspent done⟩
    intro subscription isOne
    have kept := promised.2 settled.up subscription isOne
    rw [Rumqttc.subscribes, settled.sent] at kept
    exact kept
  · intro s log after events run joined spent last more later
    have queued := Run.queued documented run
    obtain ⟨subscription, isOne, gone⟩ : ∃ subscription ∈ config.subscriptions,
        ∀ qos, (subscription.filter, qos) ∉ lib.subscribes after.client := by
      simpa [AllQueued] using spent
    have lost : Lost subscription.filter after := by
      cases stepped_of_step joined with
      | polls reacted =>
          obtain ⟨down, -, -, granted⟩ := documented.connAck reacted
          refine ⟨⟨_, rfl⟩, ?_, ?_⟩
          · rintro ⟨filter, qos⟩ waiting rfl
            exact gone qos waiting
          · exact congrFun (granted.trans (queued.down down)) _
      | stays other => exact absurd rfl (other _)
      | publish _ _ other => exact absurd rfl (other _)
    have stillLost : Lost subscription.filter last :=
      Transition.Reaches.invariant (fun s _ => Lost subscription.filter s) lost
        (fun _ _ stepped lost => lost.step documented (stepped_of_step stepped)) later
    intro subscribed
    exact asked_ne_none isOne ((subscribed subscription isOne).symm.trans stillLost.ungranted)

theorem asked_of_subscriptions {dispatch : InboundDispatch}
    (ok : subscriptions dispatch = .ok config.subscriptions) {subscription : Subscription}
    (isOne : subscription ∈ config.subscriptions) :
    config.asked subscription.filter = some (rumqttQos subscription.qos) := by
  have filters : config.subscriptions.map Subscription.filter = dispatch.subscriptions := by
    rw [subscriptions] at ok
    generalize collectLinks dispatch.routes = collected at ok
    obtain ⟨links, problems⟩ := collected
    dsimp only at ok
    split at ok
    · rw [← Except.ok.inj ok]
      exact assign_filters _ _
    · cases ok
  have distinct : (config.wires.reverse.map Prod.fst).Nodup := by
    rw [List.map_reverse, List.nodup_reverse]
    have same : config.wires.map Prod.fst = dispatch.subscriptions := by
      rw [← filters, Config.wires, List.map_map]
      rfl
    exact same ▸ Router.subscriptions_nodup dispatch.router
  have found := Containers.Assoc.lookup_of_mem distinct
    (List.mem_reverse.mpr (List.mem_map_of_mem isOne))
  rw [Config.asked]
  convert found

/-- A publish the broker has not acknowledged. -/
structure Unacknowledged where
  topic : Str
  qos : QoS
  retain : Bool
  payload : List UInt8

def Unacknowledged.again (publish : Unacknowledged) : Request :=
  .publish publish.topic publish.qos publish.retain publish.payload

def Request.unacknowledged : Request → List Unacknowledged
  | .publish topic qos retain payload =>
      if qos = .atMostOnce then [] else [⟨topic, qos, retain, payload⟩]
  | .subscribe .. => []

/-- A library with one queue; acknowledgements come in order. -/
structure Plain where
  up : Bool := false
  queue : List Request := []
  unacknowledged : List Unacknowledged := []
  granted : Str → Option QoS := Rumqttc.forgotten

def Plain.react (client : Plain) : Occurrence → Option Plain
  | .requested request => some { client with queue := client.queue ++ [request] }
  | .ended => some { client with up := false, granted := Rumqttc.forgotten }
  | .polled .connAck => if client.up then none else some { client with up := true }
  | .polled (.outgoing request) =>
      if client.queue.head? = some request then
        some { client with
          queue := client.queue.tail
          unacknowledged := client.unacknowledged ++ request.unacknowledged
          granted := if client.up then
            request.subscribes.elim client.granted (Rumqttc.grant client.granted)
            else client.granted }
      else none
  | .polled (.publish _ _) => some client
  | .polled .other => some { client with unacknowledged := client.unacknowledged.tail }
  | .polled (.error _) =>
      some ⟨false, client.unacknowledged.map Unacknowledged.again ++ client.queue, [],
        Rumqttc.forgotten⟩

def plain : Rumqttc := ⟨Plain, fun _ => {}, Plain.react, Plain.up, Plain.queue, Plain.granted⟩

theorem plain_documented : plain.Documented where
  new_connected _ := rfl
  new_unsent _ := rfl
  new_granted _ := rfl
  requested := by
    rintro client request after ⟨⟩
    exact ⟨rfl, rfl, rfl⟩
  ended := by
    rintro client after ⟨⟩
    exact ⟨rfl, rfl, rfl⟩
  connAck := by
    intro client after reacted
    change (if client.up then none else some { client with up := true }) = some after at reacted
    split at reacted
    · cases reacted
    · rename_i down
      cases reacted
      exact ⟨Bool.eq_false_of_not_eq_true down, rfl, List.suffix_rfl, rfl⟩
  outgoing := by
    intro client request after reacted
    obtain ⟨next, same⟩ := Option.ite_none_right_eq_some.mp reacted
    cases same
    exact ⟨(List.cons_head?_tail next).symm, rfl, rfl⟩
  publish := by
    rintro client topic payload after ⟨⟩
    exact ⟨rfl, rfl, rfl⟩
  other := by
    rintro client after ⟨⟩
    exact ⟨rfl, rfl, rfl⟩
  error := by
    rintro client text after ⟨⟩
    have none : (client.unacknowledged.map Unacknowledged.again).filterMap
        Request.subscribes = [] := by
      apply List.filterMap_eq_nil_iff.mpr
      intro request again
      obtain ⟨publish, -, rfl⟩ := List.mem_map.mp again
      rfl
    have same : (client.unacknowledged.map Unacknowledged.again ++ client.queue).filterMap
        Request.subscribes = plain.subscribes client := by
      rw [List.filterMap_append, none]
      rfl
    exact ⟨rfl, ⟨[], same⟩, rfl⟩

/-- The broker holds the subscriptions whenever the connection is settled. -/
def StaysSubscribed (lib : Rumqttc) (config : Config) : Prop :=
  ∀ s log, Run lib config s log → Settled s → Subscribed config s

def cellar : Config := ⟨"mqtt://broker", [⟨"cellar/temp".toList, 1⟩], [⟨1, false⟩]⟩

def cellarRequest : Request := .subscribe "cellar/temp".toList .atLeastOnce

/-- The connection ends after the subscription was sent; a publish goes through on the
next one. -/
def reconnects : List Input :=
  [.subscribe, .built, .poll .connAck, .poll (.outgoing cellarRequest), .ended,
    .poll (.error "connection reset"), .wake, .poll .connAck, .publish 0 "hall/light".toList [1],
    .poll (.outgoing (.publish "hall/light".toList .atLeastOnce false [1]))]

theorem exists_of_replay (inputs : List Input) (holds : State plain → Bool)
    (replayed : (Transition.replay (step plain cellar) (start plain cellar) inputs).any
      (fun outcome => holds outcome.1) = true) :
    ∃ s log, Run plain cellar s log ∧ holds s = true := by
  obtain ⟨outcome, same, held⟩ := Option.any_eq_true .. |>.mp replayed
  exact ⟨outcome.1, outcome.2, Transition.reachable_of_replay same, held⟩

theorem reconnected_unsubscribed : plain.Documented ∧ ¬ StaysSubscribed plain cellar := by
  refine ⟨plain_documented, fun stays => ?_⟩
  obtain ⟨s, log, run, held⟩ := exists_of_replay reconnects
    (fun s => s.client.up && s.client.queue.isEmpty &&
      (s.client.granted "cellar/temp".toList).isNone) (by decide)
  simp only [Bool.and_eq_true, List.isEmpty_iff, Option.isNone_iff_eq_none] at held
  have subscribed := stays s log run ⟨held.1.1, held.1.2⟩ _ List.mem_cons_self
  exact absurd (held.2.symm.trans subscribed) (by decide)

theorem subscribedWhile_unspent_cellar : SubscribedWhile plain cellar :=
  subscribedWhile_unspent plain_documented

end AimDb.Mqtt.Native
