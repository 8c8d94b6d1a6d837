import Mathlib.Data.List.Basic
import Mathlib.Tactic.Common

/-!
# Runs of a machine with a log

A step consumes one input, which settles everything the environment decides,
and appends what it did to the log.  An invariant speaks about the state and
the log together.
-/

namespace AimDb.Transition

variable {State Input Event : Type*} (step : State → Input → Option (State × List Event))
  (allowed : State → Input → Prop) (start : State)

/-- A state and its log after a run from `start` whose every input was allowed. -/
inductive Reaches : State → List Event → Prop
  | start : Reaches start []
  | next {state : State} {log : List Event} {input : Input} {after : State}
      {emitted : List Event} :
      Reaches state log → allowed state input → step state input = some (after, emitted) →
      Reaches after (log ++ emitted)

abbrev Reachable : State → List Event → Prop := Reaches step (fun _ _ => True) start

variable {step allowed start}

theorem Reaches.invariant (holds : State → List Event → Prop)
    (initial : holds start [])
    (kept : ∀ {state log input after emitted}, Reaches step allowed start state log →
      allowed state input → step state input = some (after, emitted) →
      holds state log → holds after (log ++ emitted))
    {state : State} {log : List Event} (reached : Reaches step allowed start state log) :
    holds state log := by
  induction reached with
  | start => exact initial
  | next reached permitted stepped inductionHypothesis =>
      exact kept reached permitted stepped inductionHypothesis

theorem Reaches.mono {weaker : State → Input → Prop}
    (weaken : ∀ state input, allowed state input → weaker state input)
    {state : State} {log : List Event} (reached : Reaches step allowed start state log) :
    Reaches step weaker start state log := by
  induction reached with
  | start => exact .start
  | next _ permitted stepped inductionHypothesis =>
      exact .next inductionHypothesis (weaken _ _ permitted) stepped

theorem Reaches.reachable {state : State} {log : List Event}
    (reached : Reaches step allowed start state log) : Reachable step start state log :=
  reached.mono fun _ _ _ => trivial

theorem Reaches.trans {middle last : State} {log more : List Event}
    (reached : Reaches step allowed start middle log)
    (rest : Reaches step allowed middle last more) :
    Reaches step allowed start last (log ++ more) := by
  induction rest with
  | start => simpa using reached
  | next _ permitted stepped inductionHypothesis =>
      rw [← List.append_assoc]
      exact .next inductionHypothesis permitted stepped

def replay (step : State → Input → Option (State × List Event)) (state : State) :
    List Input → Option (State × List Event)
  | [] => some (state, [])
  | input :: rest =>
      match step state input with
      | none => none
      | some (after, emitted) => (replay step after rest).map fun (last, log) =>
          (last, emitted ++ log)

def Permits (step : State → Input → Option (State × List Event))
    (allowed : State → Input → Prop) (state : State) : List Input → Prop
  | [] => True
  | input :: rest => allowed state input ∧
      ∀ after ∈ (step state input).map Prod.fst, Permits step allowed after rest

instance Permits.decidable [∀ state input, Decidable (allowed state input)] :
    ∀ (inputs : List Input) (state : State), Decidable (Permits step allowed state inputs)
  | [], _ => isTrue trivial
  | input :: rest, state =>
      have : ∀ after, Decidable (Permits step allowed after rest) := Permits.decidable rest
      inferInstanceAs (Decidable (allowed state input ∧
        ∀ after ∈ (step state input).map Prod.fst, Permits step allowed after rest))

theorem Reaches.replay {state : State} {log : List Event}
    (reached : Reaches step allowed start state log) {inputs : List Input}
    (permits : Permits step allowed state inputs) {last : State} {more : List Event}
    (replayed : replay step state inputs = some (last, more)) :
    Reaches step allowed start last (log ++ more) := by
  induction inputs generalizing state log more with
  | nil =>
      simp only [Transition.replay, Option.some.injEq, Prod.mk.injEq] at replayed
      obtain ⟨rfl, rfl⟩ := replayed
      simpa using reached
  | cons input rest inductionHypothesis =>
      rw [Transition.replay] at replayed
      cases stepped : step state input with
      | none => simp [stepped] at replayed
      | some outcome =>
          obtain ⟨after, emitted⟩ := outcome
          simp only [stepped, Option.map_eq_some_iff, Prod.mk.injEq, Prod.exists] at replayed
          obtain ⟨_, tail, rested, rfl, rfl⟩ := replayed
          have permitted := permits.2 after (by simp [stepped])
          rw [← List.append_assoc]
          exact inductionHypothesis (reached.next permits.1 stepped) permitted rested

theorem reachable_of_replay {inputs : List Input} {last : State} {log : List Event}
    (replayed : replay step start inputs = some (last, log)) : Reachable step start last log := by
  have permits : ∀ (inputs : List Input) (state : State),
      Permits step (fun _ _ => True) state inputs := by
    intro inputs
    induction inputs with
    | nil => exact fun _ => trivial
    | cons _ _ inductionHypothesis =>
        exact fun _ => ⟨trivial, fun after _ => inductionHypothesis after⟩
  simpa using Reaches.start.replay (permits inputs start) replayed

end AimDb.Transition
