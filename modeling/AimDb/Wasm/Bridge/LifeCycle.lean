import AimDb.Wasm.Bridge.Sound

/-!
# The life cycle of the bridge

The client engine dials one at a time.  Then the dial that has not ended owns the
published socket, and what the status says is true of it.
-/

namespace AimDb.Wasm

open Session.Client (TransportError)

variable {s : Bridge} {log events : List Event} {ws : ℕ}

def Event.adopts : Event → Option ℕ
  | .adopted ws => some ws
  | _ => none

def lastAdopted (log : List Event) : Option ℕ := (log.filterMap Event.adopts).getLast?

theorem lastAdopted_append (none : events.filterMap Event.adopts = []) :
    lastAdopted (log ++ events) = lastAdopted log := by
  rw [lastAdopted, List.filterMap_append, none, List.append_nil, lastAdopted]

def Dial.IsUp (dial : Dial) : Prop := dial.phase = .adopting ∨ dial.phase = .connected

theorem Dial.IsUp.running {dial : Dial} (isUp : dial.IsUp) : dial.phase ≠ .ended := by
  rcases isUp with phase | phase <;> rw [phase] <;> exact Phase.noConfusion

namespace Bridge

/-- The dial that has not ended owns the published socket, until `disconnect` closes it. -/
structure Owned (s : Bridge) : Prop where
  published : s.shared.stopped = false → ∀ ws, (s.dials ws).phase ≠ .ended →
    s.shared.ws = some ws
  closing : s.shared.stopped = true → ∀ ws, (s.dials ws).phase ≠ .ended →
    (s.dials ws).closing = true

/-- A connected bridge publishes the socket it adopted last. -/
def Upheld (s : Bridge) (log : List Event) : Prop :=
  s.shared.status = .connected →
    ∃ ws, s.shared.ws = some ws ∧ (s.dials ws).IsUp ∧ lastAdopted log = some ws

theorem finish_shared (s : Bridge) (frame : Frame) : (s.finish frame).1.shared = s.shared := by
  cases frame <;> rfl

theorem setStatus_status (s : Bridge) (status : ConnectionStatus) (frame : Frame) :
    (s.setStatus status frame).1.shared = { s.shared with status } := by
  rcases setStatus_cases s status frame with went | stays
  · rw [went, finish_shared, withStatus]
  · rw [stays]
    rfl

theorem finish_adopts (s : Bridge) (frame : Frame) :
    (s.finish frame).2.filterMap Event.adopts = [] := by
  cases frame <;> rfl

theorem setStatus_adopts (s : Bridge) (status : ConnectionStatus) (frame : Frame) :
    (s.setStatus status frame).2.filterMap Event.adopts = [] := by
  rcases setStatus_cases s status frame with went | stays
  · rw [went, finish_adopts]
  · rw [stays]
    rfl

theorem stop_dials (s : Bridge) (id : ℕ) : s.stop.dials id =
    if s.shared.ws = some id then { s.dials id with closing := true } else s.dials id := by
  rw [stop]
  cases mine : s.shared.ws with
  | none => rfl
  | some published =>
      by_cases same : id = published
      · rw [same, if_pos rfl]
        exact Function.update_self ..
      · rw [if_neg fun other => same (Option.some.inj other).symm]
        exact Function.update_of_ne same ..

namespace Owned

theorem setDial (owned : Owned s) {dial : Dial}
    (running : dial.phase ≠ .ended → (s.dials ws).phase ≠ .ended)
    (closes : (s.dials ws).closing = true → dial.closing = true) : Owned (s.setDial ws dial) where
  published going id isRunning := by
    rw [setDial_dials] at isRunning
    split at isRunning
    · rename_i same
      exact same ▸ owned.published going ws (running isRunning)
    · exact owned.published going id isRunning
  closing stopped id isRunning := by
    rw [setDial_dials] at isRunning ⊢
    split at isRunning
    · rename_i same
      rw [if_pos same]
      exact closes (owned.closing stopped ws (running isRunning))
    · rename_i other
      rw [if_neg other]
      exact owned.closing stopped id isRunning

theorem finish (owned : Owned s) {frame : Frame} (suspended : s.Suspended frame) :
    Owned (s.finish frame).1 := by
  cases frame with
  | publishing ws =>
      have starting : (s.dials ws).phase = .starting := suspended
      exact owned.setDial (fun _ => by rw [starting]; exact Phase.noConfusion) id
  | adopting ws =>
      have adopting : (s.dials ws).phase = .adopting := suspended
      exact owned.setDial (fun _ => by rw [adopting]; exact Phase.noConfusion) id
  | _ => exact owned

theorem setStatus (owned : Owned s) {status : ConnectionStatus} {frame : Frame}
    (suspended : s.Suspended frame) : Owned (s.setStatus status frame).1 := by
  have same : (s.withStatus status).Suspended frame := by cases frame <;> exact suspended
  have told : Owned (s.withStatus status) := ⟨owned.published, owned.closing⟩
  rcases setStatus_cases s status frame with went | stays
  · rw [went]
    exact told.finish same
  · rw [stays]
    exact ⟨told.published, told.closing⟩

theorem publish (sound : Sound s log) (ended : ∀ ws < s.count, (s.dials ws).phase = .ended)
    (going : s.shared.stopped = false) : Owned s.publish where
  published _ ws running := by
    rw [publish_dials] at running
    split at running
    · rename_i same
      rw [same]
      rfl
    · rcases Nat.lt_or_ge ws s.count with inside | past
      · exact absurd (ended ws inside) running
      · exact absurd (sound.unused ws past) running
  closing stopped := by
    rw [Bridge.publish, going] at stopped
    cases stopped

theorem abandon (owned : Owned s) (ws : ℕ) : Owned (s.abandon ws) := by
  have moved : Owned (s.setDial ws { (s.dials ws).shutdownSocket with
      phase := .ended }) :=
    owned.setDial (fun running => absurd rfl running) fun _ => rfl
  rw [Bridge.abandon, BridgeShared.unpublishSocket]
  split
  · rename_i mine
    refine ⟨fun going id running => ?_, moved.closing⟩
    have here := moved.published going id running
    rw [setDial_shared, mine] at here
    rw [← Option.some.inj here] at running
    exact absurd (congrArg Dial.phase ((setDial_dials _ ws).trans (if_pos rfl))) running
  · exact moved

theorem stop (owned : Owned s) : Owned s.stop where
  published going := by cases going
  closing _ ws running := by
    rw [stop_dials] at running ⊢
    split at running
    · rename_i mine
      rw [if_pos mine]
    · rename_i other
      rw [if_neg other]
      cases stopped : s.shared.stopped with
      | true => exact owned.closing stopped ws running
      | false => exact absurd (owned.published stopped ws running) other

theorem step (owned : Owned s) (sound : Sound s log) {action : Action}
    {outcome : Bridge × List Event} (permitted : s.OneAtATime action)
    (stepped : Stepped s action outcome) : Owned outcome.1 := by
  cases stepped with
  | dials idle =>
      rw [connect]
      split
      · exact owned
      · rename_i going
        have published := Owned.publish sound permitted (Bool.eq_false_of_not_eq_true going)
        have starting : s.publish.Suspended (.publishing s.count) :=
          congrArg Dial.phase ((publish_dials s s.count).trans (if_pos rfl))
        split
        · split
          · exact published.setStatus starting
          · exact published.finish starting
        · exact owned.setStatus (show s.Suspended .rejecting from trivial)
  | opens =>
      dsimp only [onOpen]
      split
      · exact owned.setDial id id
      · exact owned
  | @closes ws idle =>
      dsimp only [onClose]
      split
      · refine Owned.setStatus ?_ (show Suspended _ .closing from trivial)
        exact owned.setDial id id
      · exact owned
  | @settles ws opened idle awaiting =>
      rw [settle]
      split
      · exact owned.abandon ws
      · split
        · exact owned.abandon ws
        · have moved : Owned (s.setDial ws { s.dials ws with phase := .adopting }) :=
            owned.setDial (fun _ => by rw [awaiting]; exact Phase.noConfusion) id
          have adopted : Owned (s.adopt ws) := ⟨moved.published, moved.closing⟩
          exact adopted.setStatus (congrArg Dial.phase ((setDial_dials _ ws).trans (if_pos rfl)))
  | @drops ws idle =>
      rw [dropConnection]
      split
      · exact (owned.abandon ws).setStatus (show Suspended _ .dropping from trivial)
      · exact owned.abandon ws
  | disconnects =>
      exact owned.stop.setStatus (show s.stop.Suspended .disconnecting from rfl)
  | @returns frame rest here =>
      have popped : Owned { s with stack := rest } := ⟨owned.published, owned.closing⟩
      exact popped.finish (sound.pop here).2.1

end Owned

theorem unpublishSocket_snd (shared : BridgeShared) (ws : ℕ) :
    (shared.unpublishSocket ws).2 = decide (shared.ws = some ws) := by
  rw [BridgeShared.unpublishSocket]
  split
  · rename_i mine
    exact (decide_eq_true mine).symm
  · rename_i other
    exact (decide_eq_false other).symm

theorem dropStatus_ne (shared : BridgeShared) : shared.dropStatus ≠ .connected := by
  rw [BridgeShared.dropStatus]
  split <;> exact ConnectionStatus.noConfusion

theorem setDial_isUp {dial : Dial} (isUp : (s.dials ws).IsUp → dial.IsUp) {id : ℕ}
    (here : (s.dials id).IsUp) : ((s.setDial ws dial).dials id).IsUp := by
  rw [setDial_dials]
  split
  · rename_i same
    exact isUp (same ▸ here)
  · exact here

theorem finish_isUp {frame : Frame} (suspended : s.Suspended frame) {id : ℕ}
    (here : (s.dials id).IsUp) : ((s.finish frame).1.dials id).IsUp := by
  cases frame with
  | publishing ws =>
      have starting : (s.dials ws).phase = .starting := suspended
      refine setDial_isUp (fun isUp => ?_) here
      rcases isUp with phase | phase <;> cases starting.symm.trans phase
  | adopting ws => exact setDial_isUp (fun _ => .inr rfl) here
  | _ => exact here

namespace Upheld

theorem of_setStatus {status : ConnectionStatus} {frame : Frame}
    (other : status ≠ .connected) : Upheld (s.setStatus status frame).1 log := by
  intro connected
  rw [setStatus_status] at connected
  exact absurd connected other

theorem keep (upheld : Upheld s log) {after : Bridge} (same : after.shared = s.shared)
    (isUp : ∀ id, (s.dials id).IsUp → (after.dials id).IsUp)
    (none : events.filterMap Event.adopts = []) : Upheld after (log ++ events) := by
  intro connected
  rw [same] at connected ⊢
  obtain ⟨ws, mine, here, last⟩ := upheld connected
  exact ⟨ws, mine, isUp ws here, (lastAdopted_append none).trans last⟩

theorem abandon (upheld : Upheld s log)
    (other : s.shared.ws = some ws → s.shared.status ≠ .connected)
    (none : events.filterMap Event.adopts = []) : Upheld (s.abandon ws) (log ++ events) := by
  intro connected
  have status : s.shared.status = .connected := by
    rw [← connected, Bridge.abandon, BridgeShared.unpublishSocket]
    split <;> rfl
  obtain ⟨id, mine, isUp, last⟩ := upheld status
  have ne : id ≠ ws := by
    rintro rfl
    exact other mine status
  refine ⟨id, ?_, ?_, (lastAdopted_append none).trans last⟩
  · rw [Bridge.abandon, BridgeShared.unpublishSocket,
      if_neg fun same => ne (Option.some.inj (mine.symm.trans same))]
    exact mine
  · have here : (s.abandon ws).dials id = s.dials id := Function.update_of_ne ne ..
    rw [here]
    exact isUp

theorem adopt (s : Bridge) (log : List Event) (published : s.shared.ws = some ws) :
    Upheld ((s.adopt ws).setStatus .connected (.adopting ws)).1
      (log ++ .adopted ws :: ((s.adopt ws).setStatus .connected (.adopting ws)).2) := by
  intro _
  refine ⟨ws, ?_, ?_, ?_⟩
  · rw [setStatus_status]
    exact published
  · have adopting : ((s.adopt ws).dials ws).phase = .adopting :=
      congrArg Dial.phase ((setDial_dials _ ws).trans (if_pos rfl))
    rcases setStatus_cases (s.adopt ws) .connected (.adopting ws) with went | stays
    · rw [went]
      have suspended : ((s.adopt ws).withStatus .connected).Suspended (.adopting ws) := adopting
      exact finish_isUp suspended (.inl adopting)
    · rw [stays]
      exact .inl adopting
  · rw [← List.singleton_append, ← List.append_assoc, lastAdopted_append (setStatus_adopts ..),
      lastAdopted, List.filterMap_append]
    exact List.getLast?_append_of_ne_nil _ (List.cons_ne_nil ws [])

theorem step (upheld : Upheld s log) (sound : Sound s log) (owned : Owned s) {action : Action}
    {outcome : Bridge × List Event} (permitted : s.OneAtATime action)
    (stepped : Stepped s action outcome) : Upheld outcome.1 (log ++ outcome.2) := by
  cases stepped with
  | dials idle =>
      rw [connect]
      split
      · exact upheld.keep rfl (fun _ => id) rfl
      · split
        · split
          · exact of_setStatus (by decide)
          · intro connected
            rw [finish_shared] at connected
            obtain ⟨ws, mine, isUp, -⟩ := upheld connected
            have inside : ws < s.count := by
              have newest := sound.newest ws mine
              omega
            exact absurd (permitted ws inside) isUp.running
        · exact of_setStatus (by decide)
  | opens =>
      dsimp only [onOpen]
      split
      · refine upheld.keep rfl (fun _ => setDial_isUp ?_) rfl
        exact id
      · exact upheld.keep rfl (fun _ => id) rfl
  | @closes ws idle =>
      dsimp only [onClose]
      split
      · exact of_setStatus (dropStatus_ne _)
      · exact upheld.keep rfl (fun _ => id) rfl
  | @settles ws opened idle awaiting =>
      have other : s.shared.ws = some ws → s.shared.status ≠ .connected := by
        intro mine connected
        obtain ⟨id, theirs, isUp, -⟩ := upheld connected
        obtain rfl := Option.some.inj (mine.symm.trans theirs)
        rcases isUp with phase | phase <;> cases awaiting.symm.trans phase
      rw [settle]
      split
      · exact upheld.abandon other rfl
      · split
        · exact upheld.abandon other rfl
        · rename_i going
          exact adopt s log (owned.published (Bool.eq_false_of_not_eq_true going) ws
            (by rw [awaiting]; exact Phase.noConfusion))
  | @drops ws idle =>
      rw [dropConnection, unpublishSocket_snd]
      split
      · exact of_setStatus (dropStatus_ne _)
      · rename_i kept
        exact upheld.abandon (fun mine => absurd (decide_eq_true mine) kept) rfl
  | disconnects =>
      exact of_setStatus (by decide)
  | returns here =>
      have suspended := (sound.pop here).2.1
      exact upheld.keep (finish_shared ..) (fun _ => finish_isUp suspended) (finish_adopts ..)

end Upheld

abbrev Run (autoReconnect : Bool) : Bridge → List Event → Prop :=
  Transition.Reachable step (start autoReconnect)

abbrev EngineRun (autoReconnect : Bool) : Bridge → List Event → Prop :=
  Transition.Reaches step OneAtATime (start autoReconnect)

variable {autoReconnect : Bool}

theorem owned_of_run (run : EngineRun autoReconnect s log) : Owned s ∧ Upheld s log := by
  apply Transition.Reaches.invariant (fun s log => Owned s ∧ Upheld s log) ?_ ?_ run
  · exact ⟨⟨fun _ ws running => absurd rfl running, fun stopped => by cases stopped⟩,
      fun connected => by cases connected⟩
  · intro s log action after events run permitted stepped kept
    have sound := sound_of_reaches run
    have did := stepped_of_step stepped
    exact ⟨kept.1.step sound permitted did, kept.2.step sound kept.1 permitted did⟩

theorem onClose_of_stopped (s : Bridge) (status : s.shared.status = .disconnected)
    (stopped : s.shared.stopped = true) (installed : (s.dials ws).installed = true) :
    s.onClose ws = (s.setDial ws { s.dials ws with
      opened := false
      handshake := if (s.dials ws).opened then some false else (s.dials ws).handshake }, []) := by
  dsimp only [onClose]
  rw [if_pos installed, Sound.dropStatus_of_stopped stopped, setStatus, setDial_shared,
    if_pos status]
  rfl

theorem settle_of_stopped (s : Bridge) (stopped : s.shared.stopped = true) (opened : Bool) :
    s.settle ws opened = (s.abandon ws, [.ended (some ws) (.error .closed)]) := by
  rw [settle, stopped]
  cases opened <;> rfl

theorem settles_of_stopped (sound : Sound s log) (idle : s.stack = [])
    (stopped : s.shared.stopped = true) (awaiting : (s.dials ws).phase = .awaiting) :
    ∃ last, Transition.replay step s [.closes ws, .poll ws] =
      some (last, [.ended (some ws) (.error .closed)]) := by
  have inside : ws < s.count := by
    by_contra past
    cases awaiting.symm.trans (sound.unused ws (Nat.le_of_not_lt past))
  have installed : (s.dials ws).installed = true := by
    have fits := sound.fits ws
    rw [Dial.Fits, awaiting] at fits
    exact fits.1
  obtain ⟨opened, answered⟩ := Option.ne_none_iff_exists'.mp (sound.closed_handshake awaiting)
  have closed : s.step (.closes ws) = _ := if_pos ⟨idle, inside⟩
  rw [onClose_of_stopped s (sound.stopped stopped).1 stopped installed, answered] at closed
  have here : (s.setDial ws { s.dials ws with
      opened := false, handshake := some opened }).dials ws = _ :=
    (setDial_dials _ ws).trans (if_pos rfl)
  have polled : (s.setDial ws { s.dials ws with
      opened := false, handshake := some opened }).step (.poll ws) = _ :=
    if_pos ⟨idle, (congrArg Dial.phase here).trans awaiting⟩
  rw [here, Option.map_some, settle_of_stopped (s.setDial ws _) stopped] at polled
  rw [Transition.replay, closed]
  dsimp only
  rw [Transition.replay, polled]
  exact ⟨_, rfl⟩

theorem drop_old (sound : Sound s log) {old newer : ℕ} (order : old < newer)
    (constructed : newer < s.count) {after : Bridge}
    (stepped : s.step (.drop old) = some (after, events)) :
    after.shared = s.shared ∧ after.dials newer = s.dials newer ∧ events = [] := by
  obtain ⟨-, same⟩ := Option.ite_none_right_eq_some.mp stepped
  obtain ⟨rfl, rfl⟩ := Prod.ext_iff.mp (Option.some.inj same)
  have other : ¬ s.shared.ws = some old := by
    intro mine
    have newest := sound.newest old mine
    omega
  rw [dropConnection, unpublishSocket_snd, decide_eq_false other, if_neg Bool.false_ne_true]
  refine ⟨?_, Function.update_of_ne (by omega) .., rfl⟩
  rw [abandon, BridgeShared.unpublishSocket, if_neg other]

end Bridge

open Bridge in
structure LifeCycle (autoReconnect : Bool) : Prop where
  /-- Once `disconnect` has returned the bridge is disconnected and publishes no socket. -/
  stays : ∀ s log, Run autoReconnect s log → .disconnected ∈ log →
    s.shared.status = .disconnected ∧ s.shared.ws = none
  ends : ∀ s before after, Run autoReconnect s (before ++ .disconnected :: after) →
    ∀ ws outcome, .ended ws outcome ∈ after →
      outcome = .error .closed ∨ ∃ id, ws = some id ∧ .adopted id ∈ before
  refuses : ∀ s log, Run autoReconnect s log → .disconnected ∈ log → s.stack = [] →
    ∀ accepted, s.step (.dial accepted) = some (s, [.ended none (.error .closed)])
  settles : ∀ s log, Run autoReconnect s log → .disconnected ∈ log → s.stack = [] →
    ∀ ws, (s.dials ws).phase = .awaiting →
      ∃ last, Transition.replay step s [.closes ws, .poll ws] =
        some (last, [.ended (some ws) (.error .closed)])
  closes : ∀ s log, EngineRun autoReconnect s log → .disconnected ∈ log →
    ∀ ws, (s.dials ws).phase ≠ .ended → (s.dials ws).closing = true
  drops : ∀ s log, Run autoReconnect s log → ∀ old newer, old < newer → newer < s.count →
    ∀ after events, s.step (.drop old) = some (after, events) →
      after.shared = s.shared ∧ after.dials newer = s.dials newer ∧ events = []
  /-- A connected bridge publishes the socket adopted last, and hears it. -/
  connected : ∀ s log, EngineRun autoReconnect s log → s.shared.status = .connected →
    ∃ ws, s.shared.ws = some ws ∧ lastAdopted log = some ws ∧ (s.dials ws).installed = true

theorem lifeCycle (autoReconnect : Bool) : LifeCycle autoReconnect where
  stays s log run returned := by
    have sound := Bridge.sound_of_reaches run
    exact sound.stopped (sound.done returned)
  ends s before after run := ((Bridge.sound_of_reaches run).lastWord before after rfl).2
  refuses s log run returned idle accepted := by
    have stopped := (Bridge.sound_of_reaches run).done returned
    rw [Bridge.step, if_pos idle, Bridge.connect, if_pos stopped]
  settles s log run returned idle ws awaiting := by
    have sound := Bridge.sound_of_reaches run
    exact Bridge.settles_of_stopped sound idle (sound.done returned) awaiting
  closes s log run returned :=
    (Bridge.owned_of_run run).1.closing ((Bridge.sound_of_reaches run).done returned)
  drops s log run old newer order constructed after events stepped :=
    Bridge.drop_old (Bridge.sound_of_reaches run) order constructed stepped
  connected s log run connected := by
    obtain ⟨ws, mine, isUp, last⟩ := (Bridge.owned_of_run run).2 connected
    have fits := (Bridge.sound_of_reaches run).fits ws
    refine ⟨ws, mine, last, ?_⟩
    rw [Dial.Fits] at fits
    rcases isUp with phase | phase <;> rw [phase] at fits <;> exact fits

/-- The dial opens and is adopted, and the listener told so disconnects. -/
def disconnectsOnConnected : List Action :=
  [.dial true, .opens 0, .poll 0, .disconnect, .returns, .returns]

theorem adopted_not_closed : ¬ ∀ s before after,
    Bridge.EngineRun true s (before ++ .disconnected :: after) →
      ∀ ws outcome, .ended ws outcome ∈ after → outcome = .error .closed := by
  intro closed
  have permits : Transition.Permits Bridge.step Bridge.OneAtATime (Bridge.start true)
      disconnectsOnConnected :=
    ⟨fun _ inside => absurd inside (Nat.not_lt_zero _),
      fun _ _ => ⟨trivial, fun _ _ => ⟨trivial,
        fun _ _ => ⟨trivial, fun _ _ =>
          ⟨trivial, fun _ _ => ⟨trivial, fun _ _ => trivial⟩⟩⟩⟩⟩⟩
  obtain ⟨last, replayed⟩ : ∃ last, Transition.replay Bridge.step (Bridge.start true)
      disconnectsOnConnected = some (last, [.adopted 0, .status .connected, .status .disconnected,
        .disconnected, .ended (some 0) (.ok ())]) := ⟨_, rfl⟩
  have run := Transition.Reaches.start.replay permits replayed
  cases closed last [.adopted 0, .status .connected, .status .disconnected]
    [.ended (some 0) (.ok ())] run (some 0) (.ok ()) List.mem_cons_self

end AimDb.Wasm
