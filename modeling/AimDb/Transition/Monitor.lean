import Mathlib.Data.List.Basic
import Mathlib.Tactic.Common

/-!
# Monitors over a log

A monitor reads a log from its beginning, keeps a memory of what it has read and
judges each event against that memory.  Properties of the form "no such event
between these two" are monitors whose memory is the stretch the log is in.
-/

namespace AimDb.Transition

variable {Memory Event : Type*}

structure Monitor (Memory Event : Type*) where
  track : Memory → Event → Memory
  permits : Memory → Event → Prop

/-- An event of a log that has grown stands in the old part or in the new one. -/
theorem split_append {log more before after : List Event} {event : Event}
    (split : log ++ more = before ++ event :: after) :
    (∃ tail, log = before ++ event :: tail ∧ after = tail ++ more) ∨
      ∃ front, before = log ++ front ∧ more = front ++ event :: after := by
  rcases List.append_eq_append_iff.mp split with ⟨front, rfl, rfl⟩ | ⟨tail, rfl, rest⟩
  · exact .inr ⟨front, rfl, rfl⟩
  · cases tail with
    | nil => exact .inr ⟨[], by simp, rest.symm⟩
    | cons first tail =>
        rw [List.cons_append, List.cons.injEq] at rest
        obtain ⟨rfl, rfl⟩ := rest
        exact .inl ⟨tail, rfl, rfl⟩

namespace Monitor

variable (monitor : Monitor Memory Event)

def remember (memory : Memory) (log : List Event) : Memory := log.foldl monitor.track memory

def Accepts : Memory → List Event → Prop
  | _, [] => True
  | memory, event :: rest =>
      monitor.permits memory event ∧ Accepts (monitor.track memory event) rest

variable {monitor} {memory : Memory} {event : Event} {log front rest : List Event}

@[simp] theorem remember_nil : monitor.remember memory [] = memory := rfl

@[simp] theorem remember_cons :
    monitor.remember memory (event :: rest) = monitor.remember (monitor.track memory event) rest :=
  rfl

@[simp] theorem remember_append :
    monitor.remember memory (front ++ rest) =
        monitor.remember (monitor.remember memory front) rest :=
  List.foldl_append

@[simp] theorem accepts_nil : monitor.Accepts memory [] := trivial

@[simp] theorem accepts_cons :
    monitor.Accepts memory (event :: rest) ↔
      monitor.permits memory event ∧ monitor.Accepts (monitor.track memory event) rest :=
  Iff.rfl

@[simp] theorem accepts_append :
    monitor.Accepts memory (front ++ rest) ↔
      monitor.Accepts memory front ∧ monitor.Accepts (monitor.remember memory front) rest := by
  induction front generalizing memory with
  | nil => simp
  | cons event front inductionHypothesis => simp [inductionHypothesis, and_assoc]

theorem accepts_of_quiet (quiet : ∀ event ∈ log, monitor.track memory event = memory)
    (permitted : ∀ event ∈ log, monitor.permits memory event) : monitor.Accepts memory log := by
  induction log with
  | nil => trivial
  | cons event log inductionHypothesis =>
      rw [List.forall_mem_cons] at quiet permitted
      exact ⟨permitted.1, by rw [quiet.1]; exact inductionHypothesis quiet.2 permitted.2⟩

theorem remember_of_quiet (quiet : ∀ event ∈ log, monitor.track memory event = memory) :
    monitor.remember memory log = memory := by
  induction log with
  | nil => rfl
  | cons event log inductionHypothesis =>
      rw [List.forall_mem_cons] at quiet
      rw [remember_cons, quiet.1]
      exact inductionHypothesis quiet.2

end Monitor

variable {Event : Type*}

def Since (event : Event) (quiet : Event → Prop) (log : List Event) : Prop :=
  ∃ before rest, log = before ++ event :: rest ∧ ∀ later ∈ rest, quiet later

variable {event last : Event} {quiet : Event → Prop} {log : List Event}

theorem not_since_nil : ¬ Since event quiet [] := by
  rintro ⟨before, rest, split, -⟩
  simp at split

theorem since_snoc_self (log : List Event) : Since event quiet (log ++ [event]) :=
  ⟨log, [], rfl, fun _ mem => absurd mem List.not_mem_nil⟩

theorem Since.snoc (since : Since event quiet log) (isQuiet : quiet last) :
    Since event quiet (log ++ [last]) := by
  obtain ⟨before, rest, rfl, all⟩ := since
  refine ⟨before, rest ++ [last], by rw [List.append_assoc, List.cons_append],
    fun later mem => ?_⟩
  rcases List.mem_append.mp mem with old | new
  · exact all later old
  · rwa [List.mem_singleton.mp new]

theorem Since.of_snoc (since : Since event quiet (log ++ [last])) :
    last = event ∨ Since event quiet log ∧ quiet last := by
  obtain ⟨before, rest, split, all⟩ := since
  rcases split_append split with ⟨tail, rfl, rfl⟩ | ⟨front, rfl, new⟩
  · refine .inr ⟨⟨before, tail, rfl, fun later mem => ?_⟩, all last (by simp)⟩
    exact all later (List.mem_append_left _ mem)
  · cases front with
    | nil => exact .inl (List.cons.inj new).1
    | cons head front => simp at new

end AimDb.Transition
