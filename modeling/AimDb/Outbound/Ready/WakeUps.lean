import AimDb.Outbound.Ready.RoundRobin
import Mathlib.Logic.Function.Basic

/-!
# Wake-ups

The ready set together with the buffers of its routes and the producers that write them.
A producer writes, then sets the bit of the route if its reader kept a waker, then wakes
the transport task.
-/

namespace AimDb.Outbound

variable {V : Type}

/-- A route's buffer and whether its reader keeps the route's waker. -/
structure Route (V : Type) where
  unread : List V := []
  closed : Bool := false
  armed : Bool := false

/-- A wake in progress; `isSet` once its bit is set. -/
structure Wake where
  id : ℕ
  isSet : Bool
  deriving DecidableEq, Repr

inductive Reading
  | take (staged : Bool)
  | lag
  | park
  /-- The reader wakes its route itself. -/
  | defer
  | close
  deriving DecidableEq, Repr

inductive Action (V : Type)
  | call
  | advance
  | read (reading : Reading)
  | write (id : ℕ) (value : V)
  | close (id : ℕ)
  | wake (wake : Wake)

inductive Happened (V : Type)
  | wrote (id : ℕ) (value : V)
  | read (id : ℕ) (value : V)

structure Feed (V : Type) where
  transport : Transport
  route : ℕ → Route V
  waking : List Wake
  outcome : Option Outcome

namespace Feed

variable (s : Feed V)

def start (V : Type) (len : ℕ) : Feed V := ⟨Outbound.start len, fun _ => {}, [], none⟩

/-- What the last call returned, after an event of the ready set. -/
def returns (outcome : Option Outcome) : Event → Option Outcome
  | .returned outcome => some outcome
  | _ => outcome

/-- A step of the ready set, with its routes as they are. -/
def move (input : Input) : Option (Feed V) :=
  (step s.transport input).map fun after =>
    { s with transport := after.1, outcome := after.2.foldl returns s.outcome }

def setRoute (id : ℕ) (route : Route V) : Feed V :=
  { s with route := Function.update s.route id route }

def wakeReader (id : ℕ) (route : Route V) : Feed V :=
  if route.armed then
    { s.setRoute id { route with armed := false } with waking := s.waking ++ [⟨id, false⟩] }
  else s.setRoute id route

def reading (id : ℕ) : Reading → Option (Polled × Feed V × List (Happened V))
  | .take staged =>
      match (s.route id).unread with
      | [] => none
      | value :: rest =>
          some (if staged then .staged else .skipped,
            s.setRoute id { s.route id with unread := rest, armed := false }, [.read id value])
  | .lag => some (.skipped, s.setRoute id { s.route id with armed := false }, [])
  | .park =>
      if (s.route id).unread.isEmpty ∧ (s.route id).closed = false then
        some (.pending, s.setRoute id { s.route id with armed := true }, [])
      else none
  | .defer =>
      some (.pending, { s.setRoute id { s.route id with armed := false } with
        waking := s.waking ++ [⟨id, false⟩] }, [])
  | .close =>
      if (s.route id).unread.isEmpty ∧ (s.route id).closed then some (.closed, s, []) else none

def step : Action V → Option (Feed V × List (Happened V))
  | .call => (s.move .call).map fun after => (after, [])
  | .advance => (s.move .advance).map fun after => (after, [])
  | .read how =>
      match s.transport.pc with
      | .polling _ id _ =>
          match s.reading id how with
          | none => none
          | some (polled, after, events) =>
              (after.move (.answer polled)).map fun last => (last, events)
      | _ => none
  | .write id value =>
      if id < s.transport.routes.len ∧ (s.route id).closed = false then
        some (s.wakeReader id { s.route id with unread := (s.route id).unread ++ [value] },
          [.wrote id value])
      else none
  | .close id =>
      if id < s.transport.routes.len then
        some (s.wakeReader id { s.route id with closed := true }, [])
      else none
  | .wake wake =>
      if wake ∈ s.waking then
        if wake.isSet then
          ({ s with waking := s.waking.erase wake }.move .wake).map fun after => (after, [])
        else
          ({ s with waking := ⟨wake.id, true⟩ :: s.waking.erase wake }.move (.set wake.id)).map
            fun after => (after, [])
      else none

end Feed

def Pc.inHand : Pc → Option ℕ
  | .clearing _ id => some id
  | .polling _ id _ => some id
  | .serving id => some id
  | .rewaking _ id => some id
  | _ => none

/-- Some call will come to the route: it waits in the running one, or another follows. -/
inductive Foreseen (t : Transport) (outcome : Option Outcome) (j : ℕ) : Prop
  | notified : t.routes.shared.notified = true → Foreseen t outcome j
  | waits {pass : Pass} : Waits t pass j → Foreseen t outcome j
  | clears {pass : Pass} : t.pc = .clearing pass j → Foreseen t outcome j
  | serves {k : ℕ} : t.pc = .serving k → Foreseen t outcome j
  | notifies {pass : Pass} : t.pc = .notifying pass → Foreseen t outcome j
  | rests : t.pc = .idle → outcome ≠ some .pending → Foreseen t outcome j

/-- During a call and after one that returned `Pending`, the task is registered or
has been woken. -/
def Registered (t : Transport) (outcome : Option Outcome) : Prop :=
  t.pc ≠ .idle ∨ outcome = some .pending →
    t.routes.shared.task = true ∨ t.routes.shared.notified = true

section

variable {t : Transport} {input : Input} {after : Transport × List Event}
  {outcome : Option Outcome} {j : ℕ}

theorem notified_wake {shared : Shared} (held : shared.task = true ∨ shared.notified = true) :
    shared.wake.notified = true := by
  rw [Shared.wake, Bool.or_eq_true]
  exact held.symm

theorem returns_scan {routes : ReadyRoutes} {pass : Pass} {half : Half} {w : ℕ}
    (scans : Scanned routes pass half w (scan routes pass half w)) :
    (scan routes pass half w).2.foldl Feed.returns outcome = outcome := by
  generalize scan routes pass half w = scanned at scans
  cases scans <;> rfl

theorem report_shared (routes : ReadyRoutes) (pass : Pass) (id skips : ℕ) (polled : Polled) :
    (report routes pass id skips polled).routes.shared = routes.shared := by
  cases polled with
  | pending => rfl
  | staged => rfl
  | skipped =>
      unfold report
      dsimp only
      split <;> rfl
  | closed => exact ReadyRoutes.close_shared

theorem isOpen_of_report {routes : ReadyRoutes} {pass : Pass} {id skips : ℕ} {polled : Polled}
    (valid : routes.Valid) (isRoute : id < routes.len)
    (isOpen : (report routes pass id skips polled).routes.IsOpen j) : routes.IsOpen j := by
  cases polled with
  | pending => exact isOpen
  | staged => exact isOpen
  | skipped =>
      unfold report at isOpen
      dsimp only at isOpen
      split at isOpen <;> exact isOpen
  | closed => exact ((ReadyRoutes.isOpen_close valid isRoute).mp isOpen).2

theorem Registered.step (valid : t.Valid) (registered : Registered t outcome)
    (stepped : Stepped t input after) :
    Registered after.1 (after.2.foldl Feed.returns outcome) := by
  cases stepped with
  | refuses =>
      rintro (other | other)
      · exact absurd rfl other
      · cases other
  | calls => exact fun _ => .inl rfl
  | scans => exact fun _ => registered (.inl fun same => by cases same)
  | clears => exact fun _ => registered (.inl fun same => by cases same)
  | @answers routes pass id skips polled =>
      intro _
      have held := registered (.inl fun same => by cases same)
      rw [report_shared]
      exact held
  | serves =>
      rintro (other | other)
      · exact absurd rfl other
      · cases other
  | rewakes => exact fun _ => registered (.inl fun same => by cases same)
  | notifies => exact fun _ => .inr (notified_wake (registered (.inl fun same => by cases same)))
  | finishes => exact fun _ => registered (.inl fun same => by cases same)
  | sets => exact registered
  | wakes => exact fun held => .inr (notified_wake (registered held))

theorem Foreseen.of_waits (valid : t.Valid) {pass : Pass} (waits : Waits t pass j)
    (stepped : Stepped t input after) : Foreseen after.1 outcome j := by
  cases waits.step valid stepped with
  | waits _ still => exact .waits still
  | taken _ clears => exact .clears clears
  | yields => exact .serves rfl

/-- The call is at a step that no route waits for. -/
def Pc.Goes : Pc → Prop
  | .scanning .. => True
  | .polling .. => True
  | .finishing => True
  | _ => False

theorem Foreseen.notified_or_waits (foreseen : Foreseen t outcome j) (goes : t.pc.Goes) :
    t.routes.shared.notified = true ∨ ∃ pass, Waits t pass j := by
  cases foreseen with
  | notified held => exact .inl held
  | waits waits => exact .inr ⟨_, waits⟩
  | clears here =>
      rw [here] at goes
      cases goes
  | serves here =>
      rw [here] at goes
      cases goes
  | notifies here =>
      rw [here] at goes
      cases goes
  | rests here =>
      rw [here] at goes
      cases goes

/-- A step keeps what is foreseen of a route whose bit is set, unless it sets that bit. -/
theorem Foreseen.step (valid : t.Valid) (registered : Registered t outcome)
    (stepped : Stepped t input after) (isOpen : after.1.routes.IsOpen j)
    (isReady : after.1.routes.IsReady j) (notSet : input ≠ .set j) :
    Foreseen after.1 (after.2.foldl Feed.returns outcome) j ∨
      t.routes.IsOpen j ∧ t.routes.IsReady j ∧ input ≠ .wake ∧
        (Foreseen t outcome j → Foreseen after.1 (after.2.foldl Feed.returns outcome) j) := by
  have onward : ∀ {pass : Pass}, Waits t pass j →
      Foreseen after.1 (after.2.foldl Feed.returns outcome) j :=
    fun waits => .of_waits valid waits stepped
  cases stepped with
  | refuses => exact .inl (.rests rfl fun same => by cases same)
  | @calls routes some' =>
      have inside := valid.routes.isRoute j isOpen
      have pass := pass_valid (valid.routes.positive some')
      exact .inl (.waits (waits_takeNext inside pass rfl isReady isOpen
        (position_bounds inside pass.started).1))
  | scans =>
      refine .inr ⟨isOpen, isReady, (fun same => by cases same), fun foreseen => ?_⟩
      rcases foreseen.notified_or_waits trivial with held | ⟨_, waits⟩
      · exact .notified held
      · exact onward waits
  | clears =>
      obtain ⟨other, before⟩ :=
        (ReadyRoutes.isReady_clear valid.routes valid.pc.2.isRoute).mp isReady
      refine .inr ⟨isOpen, before, (fun same => by cases same), fun foreseen => ?_⟩
      cases foreseen with
      | notified held => exact .notified held
      | waits waits => exact onward waits
      | clears here =>
          cases here
          exact absurd rfl other
      | serves here => cases here
      | notifies here => cases here
      | rests here => cases here
  | @answers routes pass id skips polled =>
      have shared : (report routes pass id skips polled).routes.shared = routes.shared :=
        report_shared ..
      have openBefore : routes.IsOpen j := isOpen_of_report valid.routes valid.pc.2.1.isRoute isOpen
      refine .inr ⟨openBefore, ?_, (fun same => by cases same), fun foreseen => ?_⟩
      · rw [ReadyRoutes.IsReady, ← shared]
        exact isReady
      · rcases foreseen.notified_or_waits trivial with held | ⟨_, waits⟩
        · exact .notified (shared ▸ held)
        · exact onward waits
  | serves => exact .inl (.rests rfl fun same => by cases same)
  | rewakes => exact .inl (.notifies rfl)
  | notifies =>
      exact .inl (.notified (notified_wake (registered (.inl fun same => by cases same))))
  | finishes =>
      refine .inr ⟨isOpen, isReady, (fun same => by cases same), fun foreseen => ?_⟩
      rcases foreseen.notified_or_waits trivial with held | ⟨_, waits⟩
      · exact .notified held
      · exact onward waits
  | @sets routes pc id isRoute =>
      have before : routes.IsReady j := by
        rcases (ReadyRoutes.isReady_set valid.routes isRoute).mp isReady with rfl | before
        · exact absurd rfl notSet
        · exact before
      refine .inr ⟨isOpen, before, (fun same => by cases same), fun foreseen => ?_⟩
      cases foreseen with
      | notified held => exact .notified held
      | waits waits => exact onward waits
      | clears here => exact .clears here
      | serves here => exact .serves here
      | notifies here => exact .notifies here
      | rests here other => exact .rests here other
  | @wakes routes pc =>
      refine .inl ?_
      by_cases held : pc ≠ .idle ∨ outcome = some .pending
      · exact .notified (notified_wake (registered held))
      · rw [not_or, not_not] at held
        exact .rests held.1 held.2

theorem isReady_of_set {id : ℕ} (valid : t.Valid) (stepped : Stepped t (.set id) after) :
    after.1.routes.IsReady id := by
  cases stepped with
  | sets isRoute => exact (ReadyRoutes.isReady_set valid.routes isRoute).mpr (.inl rfl)

def Marked (t : Transport) (j : ℕ) : Prop := t.routes.IsReady j ∨ t.pc.inHand = some j

theorem Marked.isReady (marked : Marked t j) (empty : t.pc.inHand ≠ some j) :
    t.routes.IsReady j :=
  marked.resolve_right empty

theorem Marked.step (valid : t.Valid) (stepped : Stepped t input after)
    (isOpen : after.1.routes.IsOpen j) :
    t.routes.IsOpen j ∧ (Marked t j → Marked after.1 j ∨
      input = .answer .pending ∧ ∃ pass skips, t.pc = .polling pass j skips) := by
  cases stepped with
  | refuses => exact ⟨isOpen, .inl⟩
  | calls =>
      exact ⟨isOpen, fun marked => .inl (.inl (marked.isReady (fun here => by cases here)))⟩
  | scans =>
      exact ⟨isOpen, fun marked => .inl (.inl (marked.isReady (fun here => by cases here)))⟩
  | @clears routes pass id =>
      refine ⟨isOpen, fun marked => .inl ?_⟩
      by_cases same : j = id
      · subst same
        exact .inr rfl
      · rcases marked with isReady | here
        · exact .inl ((ReadyRoutes.isReady_clear valid.routes valid.pc.2.isRoute).mpr
            ⟨same, isReady⟩)
        · exact absurd (Option.some.inj here).symm same
  | @answers routes pass id skips polled =>
      refine ⟨isOpen_of_report valid.routes valid.pc.2.1.isRoute isOpen, fun marked => ?_⟩
      rcases marked with isReady | here
      · refine .inl (.inl ?_)
        rw [ReadyRoutes.IsReady, report_shared]
        exact isReady
      · obtain rfl : id = j := Option.some.inj here
        cases polled with
        | pending => exact .inr ⟨rfl, pass, skips, rfl⟩
        | staged => exact .inl (.inr rfl)
        | skipped =>
            refine .inl (.inr ?_)
            unfold report
            dsimp only
            split <;> rfl
        | closed =>
            have closed := (ReadyRoutes.isOpen_close valid.routes valid.pc.2.1.isRoute).mp isOpen
            exact absurd rfl closed.1
  | @serves routes id =>
      refine ⟨isOpen, fun marked => .inl (.inl ?_)⟩
      apply (ReadyRoutes.isReady_set valid.routes valid.pc.1).mpr
      rcases marked with isReady | here
      · exact .inr isReady
      · exact .inl (Option.some.inj here).symm
  | @rewakes routes pass id =>
      refine ⟨isOpen, fun marked => .inl (.inl ?_)⟩
      apply (ReadyRoutes.isReady_set valid.routes valid.pc.2.isRoute).mpr
      rcases marked with isReady | here
      · exact .inr isReady
      · exact .inl (Option.some.inj here).symm
  | notifies =>
      exact ⟨isOpen, fun marked => .inl (.inl (marked.isReady (fun here => by cases here)))⟩
  | finishes =>
      exact ⟨isOpen, fun marked => .inl (.inl (marked.isReady (fun here => by cases here)))⟩
  | sets isRoute =>
      refine ⟨isOpen, fun marked => .inl ?_⟩
      rcases marked with isReady | here
      · exact .inl (isReady_set_of valid.routes isRoute isReady)
      · exact .inr here
  | wakes => exact ⟨isOpen, .inl⟩

end

namespace Feed

variable {s s' : Feed V} {events : List (Happened V)}

def IsOpen (s : Feed V) (j : ℕ) : Prop := s.transport.routes.IsOpen j

/-- A step of the feed: one of the ready set, with a change to one route and to the wakes. -/
inductive Stepped (s : Feed V) : Action V → Feed V → List (Happened V) → Prop
  | own {action : Action V} {input : Input} {after : Transport × List Event} :
      action = .call ∧ input = .call ∨ action = .advance ∧ input = .advance →
      Outbound.Stepped s.transport input after →
      Stepped s action ⟨after.1, s.route, s.waking, after.2.foldl returns s.outcome⟩ []
  | takes {pass : Pass} {id skips : ℕ} {staged : Bool} {value : V} {rest : List V}
      {polled : Polled} {after : Transport × List Event} :
      s.transport.pc = .polling pass id skips → (s.route id).unread = value :: rest →
      polled = (if staged then .staged else .skipped) →
      Outbound.Stepped s.transport (.answer polled) after →
      Stepped s (.read (.take staged))
        ⟨after.1, Function.update s.route id { s.route id with unread := rest, armed := false },
          s.waking, after.2.foldl returns s.outcome⟩ [.read id value]
  | lags {pass : Pass} {id skips : ℕ} {after : Transport × List Event} :
      s.transport.pc = .polling pass id skips →
      Outbound.Stepped s.transport (.answer .skipped) after →
      Stepped s (.read .lag)
        ⟨after.1, Function.update s.route id { s.route id with armed := false }, s.waking,
          after.2.foldl returns s.outcome⟩ []
  | parks {pass : Pass} {id skips : ℕ} {after : Transport × List Event} :
      s.transport.pc = .polling pass id skips → (s.route id).unread = [] →
      (s.route id).closed = false → Outbound.Stepped s.transport (.answer .pending) after →
      Stepped s (.read .park)
        ⟨after.1, Function.update s.route id { s.route id with armed := true }, s.waking,
          after.2.foldl returns s.outcome⟩ []
  | defers {pass : Pass} {id skips : ℕ} {after : Transport × List Event} :
      s.transport.pc = .polling pass id skips →
      Outbound.Stepped s.transport (.answer .pending) after →
      Stepped s (.read .defer)
        ⟨after.1, Function.update s.route id { s.route id with armed := false },
          s.waking ++ [⟨id, false⟩], after.2.foldl returns s.outcome⟩ []
  | closes {pass : Pass} {id skips : ℕ} {after : Transport × List Event} :
      s.transport.pc = .polling pass id skips → (s.route id).unread = [] →
      Outbound.Stepped s.transport (.answer .closed) after →
      Stepped s (.read .close)
        ⟨after.1, s.route, s.waking, after.2.foldl returns s.outcome⟩ []
  | writes {id : ℕ} {value : V} : id < s.transport.routes.len →
      Stepped s (.write id value)
        (s.wakeReader id { s.route id with unread := (s.route id).unread ++ [value] })
        [.wrote id value]
  | shuts {id : ℕ} : id < s.transport.routes.len →
      Stepped s (.close id) (s.wakeReader id { s.route id with closed := true }) []
  | sets {wake : Wake} {after : Transport × List Event} : wake ∈ s.waking →
    wake.isSet = false →
      Outbound.Stepped s.transport (.set wake.id) after →
      Stepped s (.wake wake)
        ⟨after.1, s.route, ⟨wake.id, true⟩ :: s.waking.erase wake,
          after.2.foldl returns s.outcome⟩ []
  | wakes {wake : Wake} {after : Transport × List Event} : wake ∈ s.waking →
    wake.isSet = true →
      Outbound.Stepped s.transport .wake after →
      Stepped s (.wake wake)
        ⟨after.1, s.route, s.waking.erase wake, after.2.foldl returns s.outcome⟩ []

theorem move_eq_some {input : Input} (moved : s.move input = some s') :
    ∃ after, Outbound.Stepped s.transport input after ∧
      s' = ⟨after.1, s.route, s.waking, after.2.foldl returns s.outcome⟩ := by
  obtain ⟨after, stepped, rfl⟩ := Option.map_eq_some_iff.mp moved
  exact ⟨after, stepped_of_step stepped, rfl⟩

theorem stepped_of_step {action : Action V} (stepped : s.step action = some (s', events)) :
    Stepped s action s' events := by
  cases action with
  | call =>
      obtain ⟨last, moved, same⟩ := Option.map_eq_some_iff.mp stepped
      obtain ⟨after, did, rfl⟩ := move_eq_some moved
      cases same
      exact .own (.inl ⟨rfl, rfl⟩) did
  | advance =>
      obtain ⟨last, moved, same⟩ := Option.map_eq_some_iff.mp stepped
      obtain ⟨after, did, rfl⟩ := move_eq_some moved
      cases same
      exact .own (.inr ⟨rfl, rfl⟩) did
  | read how =>
      unfold step at stepped
      dsimp only at stepped
      split at stepped
      case h_2 => cases stepped
      rename_i pass id skips here
      cases how with
      | take staged =>
          cases unread : (s.route id).unread with
          | nil =>
              simp only [reading, unread] at stepped
              cases stepped
          | cons value rest =>
              simp only [reading, unread] at stepped
              obtain ⟨last, moved, same⟩ := Option.map_eq_some_iff.mp stepped
              obtain ⟨after, did, rfl⟩ := move_eq_some moved
              cases same
              exact .takes here unread rfl did
      | lag =>
          obtain ⟨last, moved, same⟩ := Option.map_eq_some_iff.mp stepped
          obtain ⟨after, did, rfl⟩ := move_eq_some moved
          cases same
          exact .lags here did
      | park =>
          simp only [reading] at stepped
          split at stepped
          · cases stepped
          · rename_i found
            obtain ⟨idle, same⟩ := Option.ite_none_right_eq_some.mp found
            cases same
            obtain ⟨last, moved, same⟩ := Option.map_eq_some_iff.mp stepped
            obtain ⟨after, did, rfl⟩ := move_eq_some moved
            cases same
            exact .parks here (List.isEmpty_iff.mp idle.1) idle.2 did
      | defer =>
          obtain ⟨last, moved, same⟩ := Option.map_eq_some_iff.mp stepped
          obtain ⟨after, did, rfl⟩ := move_eq_some moved
          cases same
          exact .defers here did
      | close =>
          simp only [reading] at stepped
          split at stepped
          · cases stepped
          · rename_i found
            obtain ⟨idle, same⟩ := Option.ite_none_right_eq_some.mp found
            cases same
            obtain ⟨last, moved, same⟩ := Option.map_eq_some_iff.mp stepped
            obtain ⟨after, did, rfl⟩ := move_eq_some moved
            cases same
            exact .closes here (List.isEmpty_iff.mp idle.1) did
  | write id value =>
      obtain ⟨held, same⟩ := Option.ite_none_right_eq_some.mp stepped
      cases same
      exact .writes held.1
  | close id =>
      obtain ⟨held, same⟩ := Option.ite_none_right_eq_some.mp stepped
      cases same
      exact .shuts held
  | wake wake =>
      obtain ⟨inside, stepped⟩ := Option.ite_none_right_eq_some.mp stepped
      split at stepped
      · rename_i isSet
        obtain ⟨last, moved, same⟩ := Option.map_eq_some_iff.mp stepped
        obtain ⟨after, did, rfl⟩ := move_eq_some moved
        cases same
        exact .wakes inside isSet did
      · rename_i unset
        obtain ⟨last, moved, same⟩ := Option.map_eq_some_iff.mp stepped
        obtain ⟨after, did, rfl⟩ := move_eq_some moved
        cases same
        exact .sets inside (Bool.eq_false_of_not_eq_true unset) did

/-- No wake-up is lost: a reader keeps its waker only with nothing to read, an open route
whose reader does not keep it is marked or about to be, and some call will come to every
marked one. -/
structure Woken (s : Feed V) : Prop where
  valid : s.transport.Valid
  registered : Registered s.transport s.outcome
  ids : ∀ wake ∈ s.waking, wake.id < s.transport.routes.len
  armed : ∀ j, (s.route j).armed = true → (s.route j).unread = [] ∧ (s.route j).closed = false
  marked : ∀ j, s.IsOpen j →
    (s.route j).armed = true ∨ ⟨j, false⟩ ∈ s.waking ∨ Marked s.transport j
  foreseen : ∀ j, s.IsOpen j → s.transport.routes.IsReady j →
    ⟨j, true⟩ ∈ s.waking ∨ Foreseen s.transport s.outcome j

variable {input : Input} {after : Transport × List Event}

theorem Woken.foreseen_step (woken : Woken s) (did : Outbound.Stepped s.transport input after)
    {waking : List Wake}
    (kept : input ≠ .wake → ∀ j, ⟨j, true⟩ ∈ s.waking → ⟨j, true⟩ ∈ waking)
    {j : ℕ} (notSet : input ≠ .set j) (isOpen : after.1.routes.IsOpen j)
    (isReady : after.1.routes.IsReady j) :
    ⟨j, true⟩ ∈ waking ∨ Foreseen after.1 (after.2.foldl returns s.outcome) j := by
  rcases Foreseen.step woken.valid woken.registered did isOpen isReady notSet with now | before
  · exact .inr now
  · obtain ⟨wasOpen, wasReady, other, keeps⟩ := before
    rcases woken.foreseen j wasOpen wasReady with waking | foreseen
    · exact .inl (kept other j waking)
    · exact .inr (keeps foreseen)

theorem Woken.marked_step (woken : Woken s) (did : Outbound.Stepped s.transport input after)
    {j : ℕ} (isOpen : after.1.routes.IsOpen j)
    (notParked : input = .answer .pending →
      ∀ pass skips, s.transport.pc ≠ .polling pass j skips) :
    (s.route j).armed = true ∨ ⟨j, false⟩ ∈ s.waking ∨ Marked after.1 j := by
  obtain ⟨wasOpen, keeps⟩ := Marked.step woken.valid did isOpen
  rcases woken.marked j wasOpen with armed | waking | marked
  · exact .inl armed
  · exact .inr (.inl waking)
  · rcases keeps marked with still | ⟨parked, pass, skips, here⟩
    · exact .inr (.inr still)
    · exact absurd here (notParked parked pass skips)

/-- The route in hand stays marked, unless its reader has nothing. -/
theorem Woken.marked_of_polling (woken : Woken s)
    (did : Outbound.Stepped s.transport input after) {pass : Pass} {id skips : ℕ}
    (here : s.transport.pc = .polling pass id skips) (some' : input ≠ .answer .pending)
    (isOpen : after.1.routes.IsOpen id) : Marked after.1 id := by
  obtain ⟨-, keeps⟩ := Marked.step woken.valid did isOpen
  have inHand : s.transport.pc.inHand = some id := by
    rw [here]
    rfl
  rcases keeps (.inr inHand) with still | ⟨parked, -⟩
  · exact still
  · exact absurd parked some'

theorem wakeReader_transport (id : ℕ) (route : Route V) :
    (s.wakeReader id route).transport = s.transport ∧
      (s.wakeReader id route).outcome = s.outcome := by
  unfold wakeReader
  split <;> exact ⟨rfl, rfl⟩

theorem wakeReader_spec (s : Feed V) (id : ℕ) (route : Route V) (j : ℕ) :
    (j ≠ id → (s.wakeReader id route).route j = s.route j) ∧
      (route.armed = true → ((s.wakeReader id route).route id).armed = false ∧
        (s.wakeReader id route).waking = s.waking ++ [⟨id, false⟩]) ∧
      (route.armed = false → (s.wakeReader id route).route id = route ∧
        (s.wakeReader id route).waking = s.waking) := by
  unfold wakeReader
  split
  · rename_i armed
    refine ⟨fun other => Function.update_of_ne other _ _, fun _ => ⟨?_, rfl⟩,
      fun other => ?_⟩
    · change (Function.update s.route id _ id).armed = false
      rw [Function.update_self]
    · exact absurd armed (by simp [other])
  · rename_i unarmed
    refine ⟨fun other => Function.update_of_ne other _ _, fun armed => absurd armed unarmed,
      fun _ => ⟨?_, rfl⟩⟩
    exact Function.update_self _ _ _

theorem Woken.wakeReader (woken : Woken s) {id : ℕ} (isRoute : id < s.transport.routes.len)
    {route : Route V} (same : route.armed = (s.route id).armed) :
    Woken (s.wakeReader id route) := by
  obtain ⟨sameTransport, sameOutcome⟩ := wakeReader_transport (s := s) id route
  have spec := fun j => wakeReader_spec s id route j
  obtain ⟨-, wakes, stays⟩ := spec id
  have kept : ∀ wake ∈ s.waking, wake ∈ (s.wakeReader id route).waking := by
    intro wake inside
    cases armed : route.armed with
    | true =>
        rw [(wakes armed).2]
        exact List.mem_append_left _ inside
    | false =>
        rw [(stays armed).2]
        exact inside
  constructor
  · exact sameTransport ▸ woken.valid
  · exact sameTransport ▸ sameOutcome ▸ woken.registered
  · rw [sameTransport]
    intro wake inside
    cases armed : route.armed with
    | true =>
        rw [(wakes armed).2] at inside
        rcases List.mem_append.mp inside with inside | isLast
        · exact woken.ids wake inside
        · obtain rfl := List.mem_singleton.mp isLast
          exact isRoute
    | false =>
        rw [(stays armed).2] at inside
        exact woken.ids wake inside
  · intro j isArmed
    by_cases here : j = id
    · subst here
      cases armed : route.armed with
      | true =>
          rw [(wakes armed).1] at isArmed
          cases isArmed
      | false =>
          rw [(stays armed).1, armed] at isArmed
          cases isArmed
    · rw [(spec j).1 here] at isArmed ⊢
      exact woken.armed j isArmed
  · intro j isOpen
    rw [IsOpen, sameTransport] at isOpen
    rw [sameTransport]
    by_cases here : j = id
    · subst here
      cases armed : route.armed with
      | true =>
          rw [(wakes armed).2]
          exact .inr (.inl (List.mem_append_right _ List.mem_cons_self))
      | false =>
          rcases woken.marked j isOpen with isArmed | waking | marked
          · rw [← same, armed] at isArmed
            cases isArmed
          · exact .inr (.inl (kept _ waking))
          · exact .inr (.inr marked)
    · rw [(spec j).1 here]
      rcases woken.marked j isOpen with isArmed | waking | marked
      · exact .inl isArmed
      · exact .inr (.inl (kept _ waking))
      · exact .inr (.inr marked)
  · intro j isOpen isReady
    rw [IsOpen, sameTransport] at isOpen
    rw [sameTransport] at isReady ⊢
    rw [sameOutcome]
    rcases woken.foreseen j isOpen isReady with waking | foreseen
    · exact .inl (kept _ waking)
    · exact .inr foreseen

theorem Woken.read (woken : Woken s) {pass : Pass} {id skips : ℕ} {polled : Polled}
    (here : s.transport.pc = .polling pass id skips)
    (did : Outbound.Stepped s.transport (.answer polled) after) (route : Route V)
    {waking : List Wake} (kept : ∀ wake ∈ s.waking, wake ∈ waking)
    (ids : ∀ wake ∈ waking, wake ∈ s.waking ∨ wake.id = id)
    (armed : route.armed = true → route.unread = [] ∧ route.closed = false)
    (marked : polled = .pending → route.armed = true ∨ ⟨id, false⟩ ∈ waking) :
    Woken ⟨after.1, Function.update s.route id route, waking,
        after.2.foldl returns s.outcome⟩ := by
  have isRoute : id < s.transport.routes.len := by
    have pc := woken.valid.pc
    rw [here] at pc
    exact pc.2.1.isRoute
  constructor
  · exact woken.valid.step did
  · exact woken.registered.step woken.valid did
  · intro wake inside
    change wake.id < after.1.routes.len
    rw [len_step woken.valid did]
    rcases ids wake inside with before | same
    · exact woken.ids wake before
    · exact same ▸ isRoute
  · intro j isArmed
    change (Function.update s.route id route j).armed = true at isArmed
    change (Function.update s.route id route j).unread = [] ∧
      (Function.update s.route id route j).closed = false
    by_cases same : j = id
    · subst same
      rw [Function.update_self] at isArmed ⊢
      exact armed isArmed
    · rw [Function.update_of_ne same] at isArmed ⊢
      exact woken.armed j isArmed
  · intro j isOpen
    change (Function.update s.route id route j).armed = true ∨ ⟨j, false⟩ ∈ waking ∨
      Marked after.1 j
    by_cases same : j = id
    · subst same
      rw [Function.update_self]
      by_cases parked : polled = .pending
      · rcases marked parked with isArmed | inside
        · exact .inl isArmed
        · exact .inr (.inl inside)
      · exact .inr (.inr (woken.marked_of_polling did here
          (fun same => parked (Input.answer.inj same))
          isOpen))
    · rw [Function.update_of_ne same]
      have other : Input.answer polled = .answer .pending →
          ∀ pass skips, s.transport.pc ≠ .polling pass j skips := by
        intro _ pass skips there
        rw [here] at there
        cases there
        exact same rfl
      rcases woken.marked_step did isOpen other with isArmed | waking | marked
      · exact .inl isArmed
      · exact .inr (.inl (kept _ waking))
      · exact .inr (.inr marked)
  · intro j isOpen isReady
    exact woken.foreseen_step did (fun _ j inside => kept _ inside) (fun same => by cases same)
      isOpen isReady

theorem Woken.step (woken : Woken s) {action : Action V} (stepped : Stepped s action s' events) :
    Woken s' := by
  cases stepped with
  | @own _ input after which did =>
      have notSet : ∀ j, input ≠ .set j := by
        rintro j rfl
        rcases which with ⟨-, same⟩ | ⟨-, same⟩ <;> cases same
      have notAnswer : input ≠ .answer .pending := by
        rintro rfl
        rcases which with ⟨-, same⟩ | ⟨-, same⟩ <;> cases same
      refine ⟨woken.valid.step did, woken.registered.step woken.valid did, ?_,
        woken.armed, ?_, ?_⟩
      · intro wake inside
        change wake.id < after.1.routes.len
        rw [len_step woken.valid did]
        exact woken.ids wake inside
      · intro j isOpen
        exact woken.marked_step did isOpen fun same => absurd same notAnswer
      · intro j isOpen isReady
        exact woken.foreseen_step did (fun _ _ inside => inside) (notSet j) isOpen isReady
  | takes here unread polled did =>
      refine woken.read here did _ (fun _ inside => inside) (fun _ inside => .inl inside)
        (fun armed => by cases armed) ?_
      rintro rfl
      split at polled <;> cases polled
  | lags here did =>
      exact woken.read here did _ (fun _ inside => inside) (fun _ inside => .inl inside)
        (fun armed => by cases armed) (fun same => by cases same)
  | parks here unread closed did =>
      exact woken.read here did _ (fun _ inside => inside) (fun _ inside => .inl inside)
        (fun _ => ⟨unread, closed⟩) (fun _ => .inl rfl)
  | defers here did =>
      refine woken.read here did _ (fun _ inside => List.mem_append_left _ inside) ?_
        (fun armed => by cases armed)
        (fun _ => .inr (List.mem_append_right _ List.mem_cons_self))
      intro wake inside
      rcases List.mem_append.mp inside with inside | isLast
      · exact .inl inside
      · exact .inr (congrArg Wake.id (List.mem_singleton.mp isLast))
  | @closes pass id skips after here unread did =>
      have same : Function.update s.route id (s.route id) = s.route := Function.update_eq_self _ _
      have read := woken.read here did (s.route id) (fun _ inside => inside)
        (fun _ inside => .inl inside) (woken.armed id) (fun same => by cases same)
      rw [same] at read
      exact read
  | writes isRoute => exact woken.wakeReader isRoute rfl
  | shuts isRoute => exact woken.wakeReader isRoute rfl
  | @sets wake after inside unset did =>
      have kept : ∀ j, ⟨j, true⟩ ∈ s.waking →
          ⟨j, true⟩ ∈ ⟨wake.id, true⟩ :: s.waking.erase wake := by
        intro j held
        apply List.mem_cons_of_mem
        apply (List.mem_erase_of_ne _).mpr held
        rintro rfl
        cases unset
      refine ⟨woken.valid.step did, woken.registered.step woken.valid did, ?_,
        woken.armed, ?_, ?_⟩
      · intro other held
        change other.id < after.1.routes.len
        rw [len_step woken.valid did]
        rcases List.mem_cons.mp held with rfl | held
        · exact woken.ids wake inside
        · exact woken.ids other (List.mem_of_mem_erase held)
      · intro j isOpen
        change (s.route j).armed = true ∨
          ⟨j, false⟩ ∈ ⟨wake.id, true⟩ :: s.waking.erase wake ∨
          Marked after.1 j
        rcases woken.marked_step did isOpen (fun same => by cases same) with armed | waking | marked
        · exact .inl armed
        · by_cases same : (⟨j, false⟩ : Wake) = wake
          · subst same
            refine .inr (.inr (.inl ?_))
            exact isReady_of_set woken.valid did
          · exact .inr (.inl (List.mem_cons_of_mem _ ((List.mem_erase_of_ne same).mpr waking)))
        · exact .inr (.inr marked)
      · intro j isOpen isReady
        by_cases same : j = wake.id
        · subst same
          exact .inl List.mem_cons_self
        · exact woken.foreseen_step did (fun _ => kept) (fun set => same (Input.set.inj set).symm)
            isOpen isReady
  | @wakes wake after inside isSet did =>
      refine ⟨woken.valid.step did, woken.registered.step woken.valid did, ?_,
        woken.armed, ?_, ?_⟩
      · intro other held
        change other.id < after.1.routes.len
        rw [len_step woken.valid did]
        exact woken.ids other (List.mem_of_mem_erase held)
      · intro j isOpen
        change (s.route j).armed = true ∨ ⟨j, false⟩ ∈ s.waking.erase wake ∨
          Marked after.1 j
        rcases woken.marked_step did isOpen (fun same => by cases same) with armed | waking | marked
        · exact .inl armed
        · refine .inr (.inl ((List.mem_erase_of_ne ?_).mpr waking))
          rintro rfl
          cases isSet
        · exact .inr (.inr marked)
      · intro j isOpen isReady
        exact woken.foreseen_step did (fun other => absurd rfl other) (fun same => by cases same)
          isOpen isReady

end Feed

end AimDb.Outbound
