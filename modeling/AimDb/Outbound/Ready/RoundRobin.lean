import AimDb.Outbound.Ready.Order

/-!
# Round robin

Between two turns of one route, every other route that was ready has its turn.
-/

namespace AimDb.Outbound

open Transition

/-- A pass from the cursor `c` that meets `k` before `j` stays short of `j`, seen from `id`. -/
theorem position_lt_of_pass {len id c j k : ℕ} (ids : id < len) (cs : c < len) (js : j < len)
    (near : position len id c < position len id j)
    (order : position len ((c + 1) % len) k < position len ((c + 1) % len) j) :
    k ≠ id ∧ position len id k < position len id j := by
  unfold position at near order ⊢
  by_cases inside : c + 1 < len
  · rw [Nat.mod_eq_of_lt inside] at order
    split_ifs at near order ⊢ <;> omega
  · have whole : c + 1 = len := by omega
    rw [whole, Nat.mod_self] at order
    split_ifs at near order ⊢ <;> omega

/-- A ready route, another route having been served last: where its turn stands. -/
inductive Turn (id j : ℕ) (s : Transport) : Prop
  | rests : s.pc = .idle → s.routes.IsReady j → Turn id j s
  | waits {pass : Pass} : Waits s pass j → Turn id j s
  | clears {pass : Pass} : s.pc = .clearing pass j → Turn id j s
  | polls {pass : Pass} {skips : ℕ} : s.pc = .polling pass j skips → Turn id j s
  | yields {k : ℕ} : s.pc = .serving k → k ≠ id →
      position s.routes.len id k < position s.routes.len id j → s.routes.IsReady j → Turn id j s

/-- The route is open, and the cursor has not come by it since `id` was served. -/
structure Awaits (id j : ℕ) (s : Transport) : Prop where
  valid : s.Valid
  isRoute : id < s.routes.len
  isOpen : s.routes.IsOpen j
  near : position s.routes.len id s.routes.cursor < position s.routes.len id j
  turn : Turn id j s

/-- What a step makes of a route that awaits its turn. -/
inductive Awaited (id j : ℕ) : Transport × List Event → Prop
  | awaits {s : Transport} {events : List Event} : Awaits id j s →
      (∀ event ∈ events, event ≠ .returned (.ready id) ∧ ∀ a, event ≠ .polled j a) →
      Awaited id j (s, events)
  | polled {s : Transport} {answer : Polled} : (answer = .staged → s.pc = .serving j) →
      Awaited id j (s, [.polled j answer])

theorem pass_valid_of_current {s : Transport} {pass : Pass} (valid : s.Valid)
    (current : s.pc.pass = some pass) : pass.Valid s.routes := by
  obtain ⟨routes, pc⟩ := s
  have here := valid.pc
  cases pc with
  | idle => cases current
  | scanning =>
      cases current
      exact here.1
  | clearing =>
      cases current
      exact here.1
  | polling =>
      cases current
      exact here.1
  | serving => cases current
  | rewaking =>
      cases current
      exact here.1
  | notifying =>
      cases current
      exact here
  | finishing => cases current

theorem Awaits.step {id j : ℕ} {s : Transport} {input : Input}
    {outcome : Transport × List Event} (awaits : Awaits id j s)
    (stepped : Stepped s input outcome) : Awaited id j outcome := by
  obtain ⟨valid, isRoute, isOpen, near, turn⟩ := awaits
  have after := valid.step stepped
  have inside := valid.routes.isRoute j isOpen
  have silent : ∀ event ∈ ([] : List Event), event ≠ .returned (.ready id) ∧
      ∀ a, event ≠ .polled j a := fun _ none => by cases none
  cases turn with
  | rests rests isReady =>
      cases stepped with
      | refuses =>
          refine .awaits ⟨after, isRoute, isOpen, near, .rests rfl isReady⟩ ?_
          intro event inside
          rcases List.mem_cons.mp inside with rfl | inside
          · exact ⟨by simp, by simp⟩
          · obtain rfl := List.mem_singleton.mp inside
            exact ⟨by simp, by simp⟩
      | @calls routes some' =>
          have pass := pass_valid (valid.routes.positive some')
          have ahead := (position_bounds inside pass.started).1
          refine .awaits ⟨after, isRoute, isOpen, near,
            .waits (waits_takeNext inside pass rfl isReady isOpen ahead)⟩ ?_
          intro event inside
          obtain rfl := List.mem_singleton.mp inside
          exact ⟨by simp, by simp⟩
      | sets inRange =>
          exact .awaits ⟨after, isRoute, isOpen, near,
            .rests rests (isReady_set_of valid.routes inRange isReady)⟩ silent
      | wakes => exact .awaits ⟨after, isRoute, isOpen, near, .rests rests isReady⟩ silent
      | _ => cases rests
  | @waits pass waits =>
      have onward := waits.step valid stepped
      cases onward with
      | @waits s' events pass' same still quiet =>
          refine .awaits ⟨after, same.len ▸ isRoute, still.due.isOpen, ?_, .waits still⟩ ?_
          · rw [same.len, same.cursor]
            exact near
          · intro event inside
            exact ⟨(quiet event inside).1 _, (quiet event inside).2.1⟩
      | @taken s' pass' same clears =>
          refine .awaits ⟨after, same ▸ isRoute, same ▸ isOpen, same ▸ near,
            .clears clears⟩ ?_
          intro event inside
          obtain rfl := List.mem_singleton.mp inside
          exact ⟨by simp, by simp⟩
      | @yields k ks before =>
          have start := (pass_valid_of_current valid waits.current).start
          rw [start] at before
          obtain ⟨other, closer⟩ := position_lt_of_pass isRoute
            (valid.routes.cursor (Nat.zero_lt_of_lt isRoute)) inside near before
          refine .awaits ⟨after, isRoute, isOpen, near,
            .yields rfl other closer waits.due.isReady⟩ ?_
          intro event inside
          obtain rfl := List.mem_singleton.mp inside
          refine ⟨by simp, ?_⟩
          rintro a ⟨⟩
          exact Nat.lt_irrefl _ closer
  | @clears pass clears =>
      cases stepped with
      | clears =>
          cases clears
          exact .awaits ⟨after, isRoute, isOpen, near, .polls rfl⟩ silent
      | sets => exact .awaits ⟨after, isRoute, isOpen, near, .clears clears⟩ silent
      | wakes => exact .awaits ⟨after, isRoute, isOpen, near, .clears clears⟩ silent
      | _ => cases clears
  | @polls pass skips polls =>
      cases stepped with
      | answers =>
          cases polls
          refine .polled ?_
          rintro rfl
          rfl
      | sets => exact .awaits ⟨after, isRoute, isOpen, near, .polls polls⟩ silent
      | wakes => exact .awaits ⟨after, isRoute, isOpen, near, .polls polls⟩ silent
      | _ => cases polls
  | @yields k serves other closer isReady =>
      cases stepped with
      | @serves routes k' =>
          cases serves
          refine .awaits ⟨after, isRoute, isOpen, closer,
            .rests rfl (isReady_set_of valid.routes valid.pc.1 isReady)⟩ ?_
          intro event inside
          obtain rfl := List.mem_singleton.mp inside
          refine ⟨?_, by simp⟩
          rintro ⟨⟩
          exact other rfl
      | sets inRange =>
          exact .awaits ⟨after, isRoute, isOpen, near,
            .yields serves other closer (isReady_set_of valid.routes inRange isReady)⟩ silent
      | wakes =>
          exact .awaits ⟨after, isRoute, isOpen, near,
            .yields serves other closer isReady⟩ silent
      | _ => cases serves

def FirstStages (j : ℕ) (log : List Event) : Prop :=
  Precedes (∃ answer, · = .polled j answer)
    (∃ answer, · = .polled j answer ∧ answer ≠ .staged) log

/-- The route is returned before `id` is. -/
def ReturnedBefore (id j : ℕ) (log : List Event) : Prop :=
  Precedes (· = .returned (.ready j)) (· = .returned (.ready id)) log

/-- Where the turn of a route that was ready stands after a log. -/
inductive Served (id j : ℕ) (s : Transport) (log : List Event) : Prop
  | returned : .returned (.ready j) ∈ log → ReturnedBefore id j log → Served id j s log
  | serving : s.pc = .serving j → .returned (.ready id) ∉ log → Served id j s log
  | awaits : Awaits id j s → .returned (.ready id) ∉ log →
      (∀ answer, .polled j answer ∉ log) → Served id j s log

theorem Served.step {id j : ℕ} (other : j ≠ id) {s : Transport} {log : List Event}
    {input : Input} {outcome : Transport × List Event} (served : Served id j s log)
    (stepped : Stepped s input outcome) (stages : FirstStages j (log ++ outcome.2)) :
    Served id j outcome.1 (log ++ outcome.2) := by
  cases served with
  | returned inside before =>
      exact .returned (List.mem_append_left _ inside) (before.append ⟨_, inside, rfl⟩)
  | serving serves none =>
      cases stepped with
      | serves =>
          cases serves
          refine .returned (List.mem_append_right _ List.mem_cons_self) (.of_none ?_)
          rintro event inside rfl
          rcases List.mem_append.mp inside with inside | new
          · exact none inside
          · cases List.mem_singleton.mp new
            exact other rfl
      | sets =>
          rw [List.append_nil]
          exact .serving serves none
      | wakes =>
          rw [List.append_nil]
          exact .serving serves none
      | _ => cases serves
  | awaits awaits none unpolled =>
      cases awaits.step stepped with
      | @awaits s' events still quiet =>
          refine .awaits still ?_ ?_
          · intro inside
            rcases List.mem_append.mp inside with inside | new
            · exact none inside
            · exact (quiet _ new).1 rfl
          · intro answer inside
            rcases List.mem_append.mp inside with inside | new
            · exact unpolled answer inside
            · exact (quiet _ new).2 answer rfl
      | @polled s' answer serves =>
          have staged : answer = .staged := by
            by_contra wrong
            apply stages.not_late_of_first ?_ ⟨answer, rfl, wrong⟩
            rintro event inside ⟨answer, rfl⟩
            exact unpolled answer inside
          refine .serving (serves staged) ?_
          intro inside
          rcases List.mem_append.mp inside with inside | new
          · exact none inside
          · cases List.mem_singleton.mp new

theorem len_step {s : Transport} {input : Input} {outcome : Transport × List Event}
    (valid : s.Valid) (stepped : Stepped s input outcome) :
    outcome.1.routes.len = s.routes.len := by
  by_cases goesOn : input = .call
  · subst goesOn
    cases stepped <;> rfl
  · exact (rank_step valid stepped goesOn).1

/-- A state of a connector with `len` routes. -/
structure OfLen (len : ℕ) (s : Transport) : Prop where
  valid : s.Valid
  len : s.routes.len = len

theorem OfLen.step {len : ℕ} {s : Transport} {input : Input} {outcome : Transport × List Event}
    (ofLen : OfLen len s) (stepped : Stepped s input outcome) : OfLen len outcome.1 :=
  ⟨ofLen.valid.step stepped, (len_step ofLen.valid stepped).trans ofLen.len⟩

end AimDb.Outbound
