import AimDb.Outbound.Ready.Visits
import AimDb.Transition.Precedence

/-!
# No route is passed over
-/

namespace AimDb.Outbound

open Transition

/-- An open route that woke and that the running pass has still to come to. -/
structure Waits (s : Transport) (pass : Pass) (j : ℕ) : Prop where
  current : s.pc.pass = some pass
  due : Due s.routes pass (frontier s.routes.len s.pc) j

structure SamePass (s : Transport) (pass : Pass) (s' : Transport) (pass' : Pass) : Prop where
  start : pass'.start = pass.start
  len : s'.routes.len = s.routes.len
  cursor : s'.routes.cursor = s.routes.cursor

inductive Onward (s : Transport) (pass : Pass) (j : ℕ) : Transport × List Event → Prop
  | waits {s' : Transport} {events : List Event} {pass' : Pass} : SamePass s pass s' pass' →
      Waits s' pass' j →
      (∀ event ∈ events, (∀ outcome, event ≠ .returned outcome) ∧
        (∀ a, event ≠ .polled j a) ∧ ∀ k, event = .taken k →
          position s.routes.len pass.start k < position s.routes.len pass.start j) →
      Onward s pass j (s', events)
  | taken {s' : Transport} {pass' : Pass} : s'.routes = s.routes → s'.pc = .clearing pass' j →
      Onward s pass j (s', [.taken j])
  | yields {k : ℕ} : k < s.routes.len →
      position s.routes.len pass.start k < position s.routes.len pass.start j →
      Onward s pass j (⟨s.routes, .serving k⟩, [.polled k .staged])

section

variable {routes : ReadyRoutes} {pass : Pass} {j : ℕ}

theorem takeNext_current (isRoute : j < routes.len) (started : pass.start < routes.len)
    (ahead : pass.next ≤ position routes.len pass.start j) :
    (takeNext routes.len pass).pass = some pass := by
  have reached := frontier_takeNext isRoute ahead
  have bounds := position_bounds isRoute started
  unfold takeNext takeLower at reached ⊢
  dsimp only at reached ⊢
  split
  · rfl
  · rename_i wrapped
    rw [if_neg wrapped] at reached
    split
    · rfl
    · rename_i empty
      rw [if_neg empty] at reached
      have beyond : 2 * routes.len ≤ position routes.len pass.start j := reached
      omega

theorem waits_takeNext {after : ReadyRoutes} (isRoute : j < routes.len) (valid : pass.Valid routes)
    (len : after.len = routes.len) (isReady : after.IsReady j) (isOpen : after.IsOpen j)
    (ahead : pass.next ≤ position routes.len pass.start j) :
    Waits ⟨after, takeNext routes.len pass⟩ pass j := by
  refine ⟨takeNext_current isRoute valid.started ahead, isReady, isOpen, ?_⟩
  rw [len]
  exact frontier_takeNext isRoute ahead

theorem isReady_set_of (valid : routes.Valid) {id : ℕ} (isRoute : id < routes.len)
    (isReady : routes.IsReady j) :
    ReadyRoutes.IsReady { routes with shared := routes.shared.set id } j :=
  (ReadyRoutes.isReady_set valid isRoute).mpr (.inr isReady)

end

theorem Pass.Took.before {routes : ReadyRoutes} {pass : Pass} {id j : ℕ}
    (took : pass.Took routes id) (ahead : pass.next ≤ position routes.len pass.start j) :
    position routes.len pass.start id < position routes.len pass.start j := by
  rw [took.next] at ahead
  exact ahead

theorem Waits.step {s : Transport} {pass : Pass} {j : ℕ} {input : Input}
    {outcome : Transport × List Event} (valid : s.Valid) (waits : Waits s pass j)
    (stepped : Stepped s input outcome) : Onward s pass j outcome := by
  obtain ⟨current, isReady, isOpen, ahead⟩ := waits
  have isRoute := valid.routes.isRoute j isOpen
  have silent : ∀ event ∈ ([] : List Event), (∀ outcome, event ≠ .returned outcome) ∧
      (∀ a, event ≠ .polled j a) ∧ ∀ k, event = .taken k →
        position s.routes.len pass.start k < position s.routes.len pass.start j :=
    fun _ none => by cases none
  cases stepped with
  | refuses => cases current
  | calls => cases current
  | @scans routes pass' half w =>
      cases current
      have outcome := scanned valid.routes valid.pc.1 valid.pc.2
      generalize scan _ _ _ _ = after at outcome ⊢
      cases outcome with
      | @takes id after same took _ _ first =>
          have order := first j ⟨isReady, isOpen, ahead⟩
          by_cases isIt : id = j
          · subst isIt
            exact .taken rfl rfl
          · have before : position routes.len pass.start id <
                position routes.len pass.start j := by
              refine Nat.lt_of_le_of_ne order fun equal => isIt ?_
              exact position_injective took.isRoute isRoute equal
            refine .waits ⟨same, rfl, rfl⟩ ⟨rfl, isReady, isOpen, ?_⟩ ?_
            · change after.next ≤ position routes.len after.start j
              rw [took.next, same]
              exact before
            · intro event inside
              obtain rfl := List.mem_singleton.mp inside
              refine ⟨fun _ => by simp, fun _ => by simp, ?_⟩
              rintro k ⟨⟩
              exact before
      | goes on _ kept =>
          have later := kept j ⟨isReady, isOpen, ahead⟩
          rcases on with rfl | ⟨half, w, rfl, -⟩
          · have started : pass.start < routes.len := valid.pc.1.started
            have bounds := position_bounds (show j < routes.len from isRoute) started
            have beyond : 2 * routes.len ≤ position routes.len pass.start j := later
            omega
          · exact .waits ⟨rfl, rfl, rfl⟩ ⟨rfl, isReady, isOpen, later⟩ silent
  | @clears routes pass' id =>
      cases current
      have before := valid.pc.2.before ahead
      have other : j ≠ id := by
        rintro rfl
        exact Nat.lt_irrefl _ before
      refine .waits ⟨rfl, rfl, rfl⟩ ⟨rfl, ?_, isOpen, ahead⟩ silent
      exact (ReadyRoutes.isReady_clear valid.routes valid.pc.2.isRoute).mpr ⟨other, isReady⟩
  | @answers routes pass' id skips polled =>
      cases current
      have before := valid.pc.2.1.before ahead
      have other : j ≠ id := by
        rintro rfl
        exact Nat.lt_irrefl _ before
      have events : ∀ event ∈ [Event.polled id polled],
        (∀ outcome, event ≠ .returned outcome) ∧
          (∀ a, event ≠ .polled j a) ∧ ∀ k, event = .taken k →
            position routes.len pass.start k < position routes.len pass.start j := by
        intro event inside
        obtain rfl := List.mem_singleton.mp inside
        exact ⟨fun _ => by simp, fun _ same => other (by cases same; rfl), fun _ => by simp⟩
      cases polled with
      | pending =>
          exact .waits ⟨rfl, rfl, rfl⟩
            (waits_takeNext isRoute valid.pc.1 rfl isReady isOpen ahead)
            events
      | staged => exact .yields valid.pc.2.1.isRoute before
      | skipped =>
          unfold report
          dsimp only
          split
          · exact .waits ⟨rfl, rfl, rfl⟩ ⟨rfl, isReady, isOpen, ahead⟩ events
          · exact .waits ⟨rfl, rfl, rfl⟩ ⟨rfl, isReady, isOpen, ahead⟩ events
      | closed =>
          have still :=
            (ReadyRoutes.isOpen_close valid.routes valid.pc.2.1.isRoute).mpr ⟨other, isOpen⟩
          refine .waits ⟨rfl, ReadyRoutes.close_len, ReadyRoutes.close_cursor⟩
            (waits_takeNext isRoute valid.pc.1 ReadyRoutes.close_len ?_ still ahead) events
          rw [ReadyRoutes.IsReady, ReadyRoutes.close_shared]
          exact isReady
  | serves => cases current
  | rewakes =>
      cases current
      exact .waits ⟨rfl, rfl, rfl⟩
        ⟨rfl, isReady_set_of valid.routes valid.pc.2.isRoute isReady, isOpen, ahead⟩ silent
  | notifies =>
      cases current
      exact .waits ⟨rfl, rfl, rfl⟩ (waits_takeNext isRoute valid.pc rfl isReady isOpen ahead)
        silent
  | finishes => cases current
  | sets inside =>
      exact .waits ⟨rfl, rfl, rfl⟩
        ⟨current, isReady_set_of valid.routes inside isReady, isOpen, ahead⟩ silent
  | wakes => exact .waits ⟨rfl, rfl, rfl⟩ ⟨current, isReady, isOpen, ahead⟩ silent

def GoesOn (_ : Transport) (input : Input) : Prop := input ≠ .call

/-- Events by which a pass has left the route behind. -/
def Oversteps (len start j : ℕ) : Event → Prop
  | .taken k => position len start j < position len start k
  | .returned (.ready _) => False
  | .returned _ => True
  | _ => False

/-- A route that waited and has not been taken: it still waits, or the call has served
another one. -/
inductive Untaken (s : Transport) (pass : Pass) (j : ℕ) (t : Transport) : Prop
  | waits {pass' : Pass} : SamePass s pass t pass' → Waits t pass' j → Untaken s pass j t
  | serves {k : ℕ} : t.pc = .serving k → Untaken s pass j t
  | rests : t.pc = .idle → Untaken s pass j t

theorem Untaken.step {s t : Transport} {pass : Pass} {j : ℕ} {input : Input}
    {outcome : Transport × List Event} (valid : t.Valid) (untaken : Untaken s pass j t)
    (stepped : Stepped t input outcome) (goesOn : input ≠ .call) :
    outcome.2 = [.taken j] ∨ Untaken s pass j outcome.1 ∧
      ∀ event ∈ outcome.2, ¬ Oversteps s.routes.len pass.start j event := by
  have silent : ∀ event ∈ ([] : List Event), ¬ Oversteps s.routes.len pass.start j event :=
    fun _ none => by cases none
  cases untaken with
  | @waits pass' same waits =>
      have onward := waits.step valid stepped
      cases onward with
      | @waits s' events pass'' later still quiet =>
          refine .inr ⟨.waits ⟨later.start.trans same.start, later.len.trans same.len,
            later.cursor.trans same.cursor⟩ still, ?_⟩
          intro event inside oversteps
          obtain ⟨noReturn, -, before⟩ := quiet event inside
          cases event with
          | called => cases oversteps
          | polled => cases oversteps
          | returned outcome => exact noReturn outcome rfl
          | taken k =>
              have order := before k rfl
              rw [same.len, same.start] at order
              exact Nat.lt_asymm order oversteps
      | taken => exact .inl rfl
      | yields =>
          refine .inr ⟨.serves rfl, ?_⟩
          intro event inside oversteps
          obtain rfl := List.mem_singleton.mp inside
          cases oversteps
  | @serves k serves =>
      cases stepped with
      | serves =>
          refine .inr ⟨.rests rfl, ?_⟩
          intro event inside oversteps
          obtain rfl := List.mem_singleton.mp inside
          cases oversteps
      | sets => exact .inr ⟨.serves serves, silent⟩
      | wakes => exact .inr ⟨.serves serves, silent⟩
      | _ => cases serves
  | rests rests =>
      cases stepped with
      | refuses => exact absurd rfl goesOn
      | calls => exact absurd rfl goesOn
      | sets => exact .inr ⟨.rests rests, silent⟩
      | wakes => exact .inr ⟨.rests rests, silent⟩
      | _ => cases rests

theorem Waits.precedes {s last : Transport} {pass : Pass} {j : ℕ} {more : List Event}
    (valid : s.Valid) (waits : Waits s pass j)
    (reached : Reaches Outbound.step GoesOn s last more) :
    Precedes (· = .taken j) (Oversteps s.routes.len pass.start j) more := by
  have holds : last.Valid ∧ (Precedes (· = .taken j)
    (Oversteps s.routes.len pass.start j) more ∧ (.taken j ∈ more ∨ Untaken s pass j last ∧
        ∀ event ∈ more, ¬ Oversteps s.routes.len pass.start j event)) := by
    apply Reaches.invariant (fun t log => t.Valid ∧
      (Precedes (· = .taken j) (Oversteps s.routes.len pass.start j) log ∧
        (.taken j ∈ log ∨ Untaken s pass j t ∧
          ∀ event ∈ log, ¬ Oversteps s.routes.len pass.start j event))) ?_ ?_ reached
    · have none : ∀ event ∈ ([] : List Event), ¬ Oversteps s.routes.len pass.start j event :=
        fun _ none => by cases none
      exact ⟨valid, .of_none none, .inr ⟨.waits ⟨rfl, rfl, rfl⟩ waits, none⟩⟩
    · intro t log input after emitted _ goesOn stepped held
      have done := stepped_of_step stepped
      refine ⟨held.1.step done, ?_⟩
      obtain ⟨precedes, taken | untaken⟩ := held.2
      · exact ⟨precedes.append ⟨_, taken, rfl⟩, .inl (List.mem_append_left _ taken)⟩
      · rcases untaken.1.step held.1 done goesOn with taken | still
        · obtain rfl : emitted = [.taken j] := taken
          refine ⟨.of_none ?_, .inl (List.mem_append_right _ List.mem_cons_self)⟩
          intro event inside
          rcases List.mem_append.mp inside with inside | isLast
          · exact untaken.2 event inside
          · obtain rfl := List.mem_singleton.mp isLast
            exact Nat.lt_irrefl _
        · have none : ∀ event ∈ log ++ emitted,
              ¬ Oversteps s.routes.len pass.start j event := by
            intro event inside
            rcases List.mem_append.mp inside with inside | new
            · exact untaken.2 event inside
            · exact still.2 event new
          exact ⟨.of_none none, .inr ⟨still.1, none⟩⟩
  exact holds.2.1

end AimDb.Outbound
