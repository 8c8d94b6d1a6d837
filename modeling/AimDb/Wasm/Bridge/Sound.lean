import AimDb.Transition.Monitor
import AimDb.Wasm.Bridge

/-!
# What every run of the bridge keeps

Dials may overlap here; only the listeners' run to completion is used.
-/

namespace AimDb.Wasm

open Session.Client (TransportError)

variable {s : Bridge} {log : List Event} {ws : ℕ}

/-- After `disconnect` has returned no handshake is adopted, and only a dial adopted
before ends otherwise than with `closed`. -/
def LastWord (log : List Event) : Prop :=
  ∀ before after, log = before ++ .disconnected :: after →
    (∀ ws, .adopted ws ∉ after) ∧
      ∀ ws outcome, .ended ws outcome ∈ after →
        outcome = .error .closed ∨ ∃ id, ws = some id ∧ .adopted id ∈ before

def Event.Late (log : List Event) : Event → Prop
  | .adopted _ => False
  | .ended ws outcome => outcome = .error .closed ∨ ∃ id, ws = some id ∧ .adopted id ∈ log
  | _ => True

theorem LastWord.snoc {event : Event} (so : LastWord log)
    (late : .disconnected ∈ log → event.Late log) : LastWord (log ++ [event]) := by
  intro before after split
  rcases Transition.split_append split with ⟨tail, rfl, rfl⟩ | ⟨front, rfl, rest⟩
  · obtain ⟨none, closed⟩ := so before tail rfl
    have late := late (List.mem_append_right _ List.mem_cons_self)
    refine ⟨fun ws inside => ?_, fun ws outcome inside => ?_⟩
    · rcases List.mem_append.mp inside with old | new
      · exact none ws old
      · rw [← List.mem_singleton.mp new] at late
        exact late
    · rcases List.mem_append.mp inside with old | new
      · exact closed ws outcome old
      · rw [← List.mem_singleton.mp new] at late
        rcases late with same | ⟨id, same, adopted⟩
        · exact .inl same
        · refine .inr ⟨id, same, ?_⟩
          rcases List.mem_append.mp adopted with before | after
          · exact before
          · rcases List.mem_cons.mp after with other | after
            · cases other
            · exact absurd after (none id)
  · cases front with
    | nil =>
        obtain ⟨-, rfl⟩ := List.cons.inj rest
        exact ⟨fun _ => List.not_mem_nil, fun _ _ inside => absurd inside List.not_mem_nil⟩
    | cons first front =>
        have empty := (List.cons.inj rest).2
        cases front <;> cases empty

/-- What a phase says about the socket. -/
def Dial.Fits (dial : Dial) : Prop :=
  match dial.phase with
  | .awaiting => dial.installed = true ∧ (dial.opened = true ∨ dial.handshake ≠ none)
  | .adopting => dial.installed = true
  | .connected => dial.installed = true
  | _ => True

theorem Dial.Fits.answer {dial : Dial} (fits : dial.Fits) {handshake : Option Bool}
    (answered : dial.phase = .awaiting → handshake ≠ none) :
    Dial.Fits { dial with opened := false, handshake } := by
  rw [Dial.Fits] at fits ⊢
  dsimp only
  cases phase : dial.phase with
  | awaiting =>
      rw [phase] at fits
      exact ⟨fits.1, .inr (answered phase)⟩
  | adopting =>
      rw [phase] at fits
      exact fits
  | connected =>
      rw [phase] at fits
      exact fits
  | starting => trivial
  | ended => trivial

namespace Bridge

inductive Stepped (s : Bridge) : Action → Bridge × List Event → Prop
  | dials {accepted : Bool} (idle : s.stack = []) : Stepped s (.dial accepted) (s.connect accepted)
  | opens {ws : ℕ} : Stepped s (.opens ws) (s.onOpen ws, [])
  | closes {ws : ℕ} (idle : s.stack = []) : Stepped s (.closes ws) (s.onClose ws)
  | settles {ws : ℕ} {opened : Bool} (idle : s.stack = [])
      (awaiting : (s.dials ws).phase = .awaiting) : Stepped s (.poll ws) (s.settle ws opened)
  | drops {ws : ℕ} (idle : s.stack = []) : Stepped s (.drop ws) (s.dropConnection ws)
  | disconnects : Stepped s .disconnect s.disconnect
  | returns {frame : Frame} {rest : List Frame} (here : s.stack = frame :: rest) :
      Stepped s .returns ({ s with stack := rest }.finish frame)

theorem stepped_of_step {action : Action} {outcome : Bridge × List Event}
    (stepped : s.step action = some outcome) : Stepped s action outcome := by
  cases action with
  | dial accepted =>
      obtain ⟨idle, same⟩ := Option.ite_none_right_eq_some.mp stepped
      exact Option.some.inj same ▸ .dials idle
  | opens ws =>
      obtain ⟨-, same⟩ := Option.ite_none_right_eq_some.mp stepped
      exact Option.some.inj same ▸ .opens
  | closes ws =>
      obtain ⟨⟨idle, -⟩, same⟩ := Option.ite_none_right_eq_some.mp stepped
      exact Option.some.inj same ▸ .closes idle
  | poll ws =>
      obtain ⟨⟨idle, awaiting⟩, settled⟩ := Option.ite_none_right_eq_some.mp stepped
      obtain ⟨opened, -, same⟩ := Option.map_eq_some_iff.mp settled
      exact same ▸ .settles idle awaiting
  | drop ws =>
      obtain ⟨⟨idle, -⟩, same⟩ := Option.ite_none_right_eq_some.mp stepped
      exact Option.some.inj same ▸ .drops idle
  | disconnect => exact Option.some.inj stepped ▸ .disconnects
  | returns =>
      rw [step] at stepped
      cases here : s.stack with
      | nil => simp [here] at stepped
      | cons frame rest =>
          rw [here] at stepped
          exact Option.some.inj stepped ▸ .returns here

def Suspended (s : Bridge) : Frame → Prop
  | .publishing ws => (s.dials ws).phase = .starting
  | .adopting ws => (s.dials ws).phase = .adopting
  | .disconnecting => s.shared.stopped = true
  | _ => True

structure Sound (s : Bridge) (log : List Event) : Prop where
  /-- Only a listener's `disconnect` is suspended above another call. -/
  nested : s.stack.Pairwise fun above _ => above = .disconnecting
  suspended : ∀ frame ∈ s.stack, s.Suspended frame
  stopped : s.shared.stopped = true → s.shared.status = .disconnected ∧ s.shared.ws = none
  newest : ∀ ws, s.shared.ws = some ws → ws + 1 = s.count
  unused : ∀ ws, s.count ≤ ws → (s.dials ws).phase = .ended
  fits : ∀ ws, (s.dials ws).Fits
  done : .disconnected ∈ log → s.shared.stopped = true
  adopted : ∀ ws, (s.dials ws).phase = .adopting → .adopted ws ∈ log
  lastWord : LastWord log

@[simp] theorem setDial_shared (dial : Dial) : (s.setDial ws dial).shared = s.shared := rfl

@[simp] theorem setDial_stack (dial : Dial) : (s.setDial ws dial).stack = s.stack := rfl

theorem setDial_dials (dial : Dial) (id : ℕ) :
    (s.setDial ws dial).dials id = if id = ws then dial else s.dials id :=
  Function.update_apply ..

theorem publish_dials (s : Bridge) (id : ℕ) : s.publish.dials id =
    if id = s.count then { Dial.unused with phase := .starting } else s.dials id :=
  Function.update_apply ..

def withStatus (s : Bridge) (status : ConnectionStatus) : Bridge :=
  { s with shared := { s.shared with status } }

theorem setStatus_cases (s : Bridge) (status : ConnectionStatus) (frame : Frame) :
    s.setStatus status frame = (s.withStatus status).finish frame ∨
      s.setStatus status frame =
        ({ s.withStatus status with stack := frame :: s.stack }, [.status status]) := by
  rw [setStatus]
  split
  · rename_i same
    exact .inl (by rw [withStatus, ← same])
  · exact .inr rfl

/-- A frame goes on top of a stack: a `disconnect`, or a call on its own. -/
def OnTop (s : Bridge) (frame : Frame) : Prop := frame = .disconnecting ∨ s.stack = []

namespace Sound

theorem snoc (sound : Sound s log) {event : Event}
    (late : s.shared.stopped = true → event.Late log)
    (done : event = .disconnected → s.shared.stopped = true) : Sound s (log ++ [event]) where
  nested := sound.nested
  suspended := sound.suspended
  stopped := sound.stopped
  newest := sound.newest
  unused := sound.unused
  fits := sound.fits
  done inside := by
    rcases List.mem_append.mp inside with old | new
    · exact sound.done old
    · exact done (List.mem_singleton.mp new).symm
  adopted ws adopting := List.mem_append_left _ (sound.adopted ws adopting)
  lastWord := sound.lastWord.snoc fun inside => late (sound.done inside)

theorem ended (sound : Sound s log) {id : Option ℕ} {outcome : Except TransportError Unit}
    (late : s.shared.stopped = true → Event.Late log (.ended id outcome)) :
    Sound s (log ++ [.ended id outcome]) :=
  sound.snoc late fun other => by cases other

theorem share (sound : Sound s log) {shared : BridgeShared}
    (stopped : shared.stopped = true → shared.status = .disconnected ∧ shared.ws = none)
    (newest : ∀ ws, shared.ws = some ws → ws + 1 = s.count)
    (stays : s.shared.stopped = true → shared.stopped = true) : Sound { s with shared } log where
  nested := sound.nested
  suspended frame inside := by
    have suspended := sound.suspended frame inside
    cases frame with
    | disconnecting => exact stays suspended
    | _ => exact suspended
  stopped := stopped
  newest := newest
  unused := sound.unused
  fits := sound.fits
  done inside := stays (sound.done inside)
  adopted := sound.adopted
  lastWord := sound.lastWord

theorem withStatus (sound : Sound s log) {status : ConnectionStatus}
    (may : s.shared.stopped = true → status = .disconnected) : Sound (s.withStatus status) log :=
  sound.share (fun stopped => ⟨may stopped, (sound.stopped stopped).2⟩) sound.newest id

theorem setDial (sound : Sound s log) {dial : Dial}
    (idle : s.stack = [] ∨ dial.phase = (s.dials ws).phase) (fits : dial.Fits)
    (inside : s.count ≤ ws → dial.phase = .ended)
    (adopted : dial.phase = .adopting → .adopted ws ∈ log) : Sound (s.setDial ws dial) log where
  nested := sound.nested
  suspended frame inside := by
    rcases idle with idle | same
    · rw [setDial_stack, idle] at inside
      cases inside
    · have suspended := sound.suspended frame inside
      have phases : ∀ id, ((s.setDial ws dial).dials id).phase = (s.dials id).phase := by
        intro id
        rw [setDial_dials]
        split
        · rename_i here
          rw [here, same]
        · rfl
      cases frame with
      | publishing id => exact (phases id).trans suspended
      | adopting id => exact (phases id).trans suspended
      | _ => exact suspended
  stopped := sound.stopped
  newest := sound.newest
  unused id past := by
    rw [setDial_dials]
    split
    · rename_i same
      exact inside (same ▸ past)
    · exact sound.unused id past
  fits id := by
    rw [setDial_dials]
    split
    · exact fits
    · exact sound.fits id
  done := sound.done
  adopted id adopting := by
    rw [setDial_dials] at adopting
    split at adopting
    · rename_i same
      exact same ▸ adopted adopting
    · exact sound.adopted id adopting
  lastWord := sound.lastWord

theorem push (sound : Sound s log) {frame : Frame} (suspended : s.Suspended frame)
    (onTop : s.OnTop frame) : Sound { s with stack := frame :: s.stack } log where
  nested := by
    refine List.pairwise_cons.mpr ⟨fun below inside => ?_, sound.nested⟩
    rcases onTop with same | idle
    · exact same
    · rw [idle] at inside
      cases inside
  suspended other inside := by
    rcases List.mem_cons.mp inside with rfl | inside
    · cases other <;> exact suspended
    · have suspended := sound.suspended other inside
      cases other <;> exact suspended
  stopped := sound.stopped
  newest := sound.newest
  unused := sound.unused
  fits := sound.fits
  done := sound.done
  adopted := sound.adopted
  lastWord := sound.lastWord

theorem pop (sound : Sound s log) {frame : Frame} {rest : List Frame}
    (here : s.stack = frame :: rest) :
    Sound { s with stack := rest } log ∧ Suspended { s with stack := rest } frame ∧
      (frame = .disconnecting ∨ rest = []) := by
  have nested := sound.nested
  have suspended := sound.suspended
  rw [here] at nested suspended
  obtain ⟨above, nested⟩ := List.pairwise_cons.mp nested
  refine ⟨⟨nested, fun other inside => ?_, sound.stopped, sound.newest, sound.unused,
    sound.fits, sound.done, sound.adopted, sound.lastWord⟩, ?_, ?_⟩
  · have suspended := suspended other (List.mem_cons_of_mem _ inside)
    cases other <;> exact suspended
  · have suspended := suspended frame List.mem_cons_self
    cases frame <;> exact suspended
  · cases rest with
    | nil => exact .inr rfl
    | cons next rest => exact .inl (above next List.mem_cons_self)

theorem finish (sound : Sound s log) {frame : Frame} (suspended : s.Suspended frame)
    (onTop : s.OnTop frame) : Sound (s.finish frame).1 (log ++ (s.finish frame).2) := by
  have used : ∀ {ws}, (s.dials ws).phase ≠ .ended → ∀ {phase : Phase}, s.count ≤ ws →
      phase = .ended :=
    fun running _ past => absurd (sound.unused _ past) running
  cases frame with
  | rejecting => exact sound.ended fun _ => .inl rfl
  | publishing ws =>
      rcases onTop with other | idle
      · cases other
      · have starting : (s.dials ws).phase = .starting := suspended
        rw [Bridge.finish, List.append_nil]
        exact sound.setDial (.inl idle) ⟨rfl, .inl rfl⟩
          (used (by rw [starting]; exact Phase.noConfusion))
          fun other => by cases other
  | adopting ws =>
      rcases onTop with other | idle
      · cases other
      · have adopting : (s.dials ws).phase = .adopting := suspended
        have fits := sound.fits ws
        rw [Dial.Fits, adopting] at fits
        refine (sound.setDial (.inl idle) ?_
          (used (by rw [adopting]; exact Phase.noConfusion)) ?_).ended ?_
        · exact fits
        · exact fun other => by cases other
        · exact fun _ => .inr ⟨ws, rfl, sound.adopted ws adopting⟩
  | closing =>
      rw [Bridge.finish, List.append_nil]
      exact sound
  | dropping =>
      rw [Bridge.finish, List.append_nil]
      exact sound
  | disconnecting => exact sound.snoc (fun _ => trivial) fun _ => suspended

theorem setStatus {status : ConnectionStatus} {frame : Frame}
    (sound : Sound (s.withStatus status) log) (suspended : s.Suspended frame)
    (onTop : s.OnTop frame) :
    Sound (s.setStatus status frame).1 (log ++ (s.setStatus status frame).2) := by
  have same : (s.withStatus status).Suspended frame := by cases frame <;> exact suspended
  rcases setStatus_cases s status frame with went | stays
  · rw [went]
    exact sound.finish same onTop
  · rw [stays]
    exact (sound.push same onTop).snoc (fun _ => trivial) fun other => by cases other

theorem publish (sound : Sound s log) (idle : s.stack = [])
    (running : s.shared.stopped = false) : Sound s.publish log where
  nested := sound.nested
  suspended frame inside := by
    rw [Bridge.publish, idle] at inside
    cases inside
  stopped stopped := by
    rw [Bridge.publish, running] at stopped
    cases stopped
  newest ws same := congrArg (· + 1) (Option.some.inj same).symm
  unused ws past := by
    change s.count + 1 ≤ ws at past
    rw [publish_dials, if_neg (by omega)]
    exact sound.unused ws (by omega)
  fits ws := by
    rw [publish_dials]
    split
    · trivial
    · exact sound.fits ws
  done := sound.done
  adopted ws adopting := by
    rw [publish_dials] at adopting
    split at adopting
    · cases adopting
    · exact sound.adopted ws adopting
  lastWord := sound.lastWord

theorem unpublish (sound : Sound s log) (ws : ℕ) :
    Sound { s with shared := (s.shared.unpublishSocket ws).1 } log := by
  rw [BridgeShared.unpublishSocket]
  split
  · exact sound.share (fun stopped => ⟨(sound.stopped stopped).1, rfl⟩)
      (fun _ same => by cases same) id
  · exact sound

theorem abandon (sound : Sound s log) (idle : s.stack = []) (ws : ℕ) : Sound (s.abandon ws) log :=
  Sound.unpublish (sound.setDial (.inl idle) (show Dial.Fits { (s.dials ws).shutdownSocket with
    phase := .ended } from trivial) (fun _ => rfl) fun other => by cases other) ws

theorem adopt (sound : Sound s log) (idle : s.stack = []) (running : s.shared.stopped = false)
    (awaiting : (s.dials ws).phase = .awaiting) : Sound (s.adopt ws) (log ++ [.adopted ws]) := by
  have stopped : ¬ s.shared.stopped = true := by
    rw [running]
    exact Bool.false_ne_true
  have fits := sound.fits ws
  rw [Dial.Fits, awaiting] at fits
  have told : Sound s (log ++ [.adopted ws]) :=
    sound.snoc (fun now => absurd now stopped) fun other => by cases other
  have moved : Sound (s.setDial ws { s.dials ws with phase := .adopting }) (log ++ [.adopted ws]) :=
    told.setDial (.inl idle) fits.1
      (fun past => absurd (sound.unused ws past) (by rw [awaiting]; exact Phase.noConfusion))
      fun _ => List.mem_append_right _ List.mem_cons_self
  exact moved.share (fun now => absurd now stopped) moved.newest id

theorem connect (sound : Sound s log) (idle : s.stack = []) (accepted : Bool) :
    Sound (s.connect accepted).1 (log ++ (s.connect accepted).2) := by
  rw [Bridge.connect]
  cases stopped : s.shared.stopped with
  | true => exact sound.ended fun _ => .inl rfl
  | false =>
      have running : ¬ s.publish.shared.stopped = true := by
        rw [Bridge.publish, stopped]
        exact Bool.false_ne_true
      have published := sound.publish idle stopped
      have starting : s.publish.Suspended (.publishing s.count) :=
        congrArg Dial.phase ((publish_dials s s.count).trans (if_pos rfl))
      cases accepted with
      | true =>
          rw [if_neg Bool.false_ne_true, if_pos rfl]
          split
          · exact (published.withStatus fun now => absurd now running).setStatus starting
              (.inr idle)
          · exact published.finish starting (.inr idle)
      | false =>
          exact (sound.withStatus fun _ => rfl).setStatus
            (show s.Suspended .rejecting from trivial) (.inr idle)

theorem settle (sound : Sound s log) (idle : s.stack = []) (opened : Bool)
    (awaiting : (s.dials ws).phase = .awaiting) :
    Sound (s.settle ws opened).1 (log ++ (s.settle ws opened).2) := by
  rw [Bridge.settle]
  cases opened with
  | false =>
      refine (sound.abandon idle ws).ended fun stopped => .inl ?_
      have same : (s.abandon ws).shared.stopped = s.shared.stopped := by
        rw [Bridge.abandon, BridgeShared.unpublishSocket]
        split <;> rfl
      rw [same] at stopped
      rw [stopped, if_pos rfl]
  | true =>
      cases stopped : s.shared.stopped with
      | true => exact (sound.abandon idle ws).ended fun _ => .inl rfl
      | false =>
          have running : ¬ s.shared.stopped = true := by
            rw [stopped]
            exact Bool.false_ne_true
          have adopted : Sound ((s.adopt ws).withStatus .connected) (log ++ [.adopted ws]) :=
            (sound.adopt idle stopped awaiting).withStatus fun now => absurd now running
          have suspended : (s.adopt ws).Suspended (.adopting ws) :=
            congrArg Dial.phase ((setDial_dials _ ws).trans (if_pos rfl))
          have done := adopted.setStatus suspended (.inr idle)
          rw [List.append_assoc] at done
          exact done

theorem touch (sound : Sound s log) {dial : Dial} (same : dial.phase = (s.dials ws).phase)
    (fits : dial.Fits) : Sound (s.setDial ws dial) log :=
  sound.setDial (.inr same) fits (fun past => same.trans (sound.unused ws past))
    fun adopting => sound.adopted ws (same ▸ adopting)

theorem onOpen (sound : Sound s log) (ws : ℕ) : Sound (s.onOpen ws) log := by
  rw [Bridge.onOpen]
  split
  · exact sound.touch rfl ((sound.fits ws).answer fun _ => Option.some_ne_none true)
  · exact sound

theorem dropStatus_of_stopped {shared : BridgeShared} (stopped : shared.stopped = true) :
    shared.dropStatus = .disconnected := by
  rw [BridgeShared.dropStatus, stopped, Bool.true_or, if_pos rfl]

theorem closed_handshake (sound : Sound s log) (awaiting : (s.dials ws).phase = .awaiting) :
    (if (s.dials ws).opened then some false else (s.dials ws).handshake) ≠ none := by
  have fits := sound.fits ws
  rw [Dial.Fits, awaiting] at fits
  split
  · exact Option.some_ne_none false
  · rename_i taken
    exact fits.2.resolve_left taken

theorem onClose (sound : Sound s log) (idle : s.stack = []) (ws : ℕ) :
    Sound (s.onClose ws).1 (log ++ (s.onClose ws).2) := by
  rw [Bridge.onClose]
  dsimp only
  split
  · have closed : Sound (s.setDial ws { s.dials ws with
        opened := false
        handshake := if (s.dials ws).opened then some false else (s.dials ws).handshake }) log :=
      sound.touch rfl ((sound.fits ws).answer sound.closed_handshake)
    exact Sound.setStatus (closed.withStatus dropStatus_of_stopped) trivial (.inr idle)
  · rw [List.append_nil]
    exact sound

theorem dropConnection (sound : Sound s log) (idle : s.stack = []) (ws : ℕ) :
    Sound (s.dropConnection ws).1 (log ++ (s.dropConnection ws).2) := by
  have abandoned := sound.abandon idle ws
  rw [Bridge.dropConnection]
  split
  · exact Sound.setStatus (abandoned.withStatus dropStatus_of_stopped) trivial (.inr idle)
  · rw [List.append_nil]
    exact abandoned

theorem disconnect (sound : Sound s log) : Sound s.disconnect.1 (log ++ s.disconnect.2) := by
  have closed : Sound { s with dials := s.stop.dials } log := by
    rw [stop]
    cases s.shared.ws with
    | none => exact sound
    | some ws => exact sound.touch rfl (sound.fits ws)
  have stopped : Sound (s.stop.withStatus .disconnected) log :=
    closed.share (fun _ => ⟨rfl, rfl⟩) (fun _ same => by cases same) fun _ => rfl
  exact stopped.setStatus rfl (.inl rfl)

theorem step (sound : Sound s log) {action : Action} {outcome : Bridge × List Event}
    (stepped : Stepped s action outcome) : Sound outcome.1 (log ++ outcome.2) := by
  cases stepped with
  | dials idle => exact sound.connect idle _
  | opens =>
      rw [List.append_nil]
      exact sound.onOpen _
  | closes idle => exact sound.onClose idle _
  | settles idle awaiting => exact sound.settle idle _ awaiting
  | drops idle => exact sound.dropConnection idle _
  | disconnects => exact sound.disconnect
  | returns here =>
      obtain ⟨popped, suspended, onTop⟩ := sound.pop here
      exact popped.finish suspended onTop

end Sound

theorem sound_start (autoReconnect : Bool) : Sound (start autoReconnect) [] where
  nested := .nil
  suspended frame inside := by cases inside
  stopped stopped := by cases stopped
  newest ws same := by cases same
  unused ws _ := rfl
  fits ws := trivial
  done inside := by cases inside
  adopted ws adopting := by cases adopting
  lastWord before after split := absurd split (by simp)

theorem sound_of_reaches {autoReconnect : Bool} {allowed : Bridge → Action → Prop}
    (reached : Transition.Reaches step allowed (start autoReconnect) s log) : Sound s log :=
  reached.invariant Sound (sound_start autoReconnect)
    fun _ _ stepped sound => sound.step (stepped_of_step stepped)

end Bridge

end AimDb.Wasm
