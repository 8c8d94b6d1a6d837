import AimDb.Transition.Monitor
import Mathlib.Data.List.Basic
import Mathlib.Tactic.Common

/-!
# Following a history

A history only grows.  Its readers are handed its entries in order, but a buffer
that keeps only some of them may pass entries over, told or untold.  A transducer
turns what was read into what it emits, and never takes anything back.
-/

namespace AimDb.Following

open Transition (split_append)

variable {Entry : Type*}

inductive Reading (Entry : Type*)
  | sample (passed : ℕ) (entry : Entry)
  /-- The reader is told how many entries it has missed. -/
  | missed (count : ℕ)
  deriving DecidableEq, Repr

namespace Reading

def span : Reading Entry → ℕ
  | sample passed _ => passed + 1
  | missed count => count

def entry? : Reading Entry → Option Entry
  | sample _ entry => some entry
  | missed _ => none

def Exact : Reading Entry → Prop
  | sample passed _ => passed = 0
  | missed _ => False

def Told : Reading Entry → Prop
  | sample passed _ => passed = 0
  | missed _ => True

instance : DecidablePred (@Exact Entry)
  | sample passed _ => inferInstanceAs (Decidable (passed = 0))
  | missed _ => .isFalse id

end Reading

def samples (readings : List (Reading Entry)) : List Entry := readings.filterMap Reading.entry?

def covered : List (Reading Entry) → ℕ
  | [] => 0
  | reading :: readings => reading.span + covered readings

@[simp] theorem samples_nil : samples ([] : List (Reading Entry)) = [] := rfl

@[simp] theorem samples_cons (reading : Reading Entry) (readings : List (Reading Entry)) :
    samples (reading :: readings) = reading.entry?.toList ++ samples readings := by
  cases reading <;> rfl

@[simp] theorem samples_append (readings more : List (Reading Entry)) :
    samples (readings ++ more) = samples readings ++ samples more :=
  List.filterMap_append

@[simp] theorem covered_nil : covered ([] : List (Reading Entry)) = 0 := rfl

@[simp] theorem covered_append (readings more : List (Reading Entry)) :
    covered (readings ++ more) = covered readings + covered more := by
  induction readings with
  | nil => exact (Nat.zero_add _).symm
  | cons reading readings inductionHypothesis =>
      rw [List.cons_append, covered, covered, inductionHypothesis, Nat.add_assoc]

/-- The readings account for the history from `joined` on, and `next` comes next. -/
inductive Follows (history : List Entry) (joined : ℕ) : List (Reading Entry) → ℕ → Prop
  | join : joined ≤ history.length → Follows history joined [] joined
  | sample {readings : List (Reading Entry)} {next : ℕ} {passed : ℕ} {entry : Entry} :
      Follows history joined readings next → history[next + passed]? = some entry →
      Follows history joined (readings ++ [.sample passed entry]) (next + (passed + 1))
  | missed {readings : List (Reading Entry)} {next : ℕ} {count : ℕ} :
      Follows history joined readings next → next + count ≤ history.length →
      Follows history joined (readings ++ [.missed count]) (next + count)

namespace Follows

variable {history : List Entry} {joined next : ℕ} {readings : List (Reading Entry)}

theorem next_le (follows : Follows history joined readings next) : next ≤ history.length := by
  cases follows with
  | join le => exact le
  | sample _ read => exact (List.getElem?_eq_some_iff.mp read).1
  | missed _ le => exact le

theorem grow (follows : Follows history joined readings next) (more : List Entry) :
    Follows (history ++ more) joined readings next := by
  have longer : history.length ≤ (history ++ more).length := by simp
  induction follows with
  | join le => exact .join (Nat.le_trans le longer)
  | sample _ read inductionHypothesis =>
      apply inductionHypothesis.sample
      rw [List.getElem?_append_left (List.getElem?_eq_some_iff.mp read).1]
      exact read
  | missed _ le inductionHypothesis => exact inductionHypothesis.missed (Nat.le_trans le longer)

theorem next_eq (follows : Follows history joined readings next) :
    next = joined + covered readings := by
  induction follows with
  | join => rfl
  | sample _ _ inductionHypothesis | missed _ _ inductionHypothesis =>
      simp [covered, Reading.span] at inductionHypothesis ⊢
      omega

theorem joined_le (follows : Follows history joined readings next) : joined ≤ next := by
  rw [follows.next_eq]
  exact Nat.le_add_right _ _

theorem position (follows : Follows history joined readings next)
    {before after : List (Reading Entry)}
    {passed : ℕ} {entry : Entry} (split : readings = before ++ .sample passed entry :: after) :
    history[joined + covered before + passed]? = some entry := by
  induction follows generalizing after with
  | join => simp at split
  | @sample readings next passed' entry' follows read inductionHypothesis =>
      rcases split_append split with ⟨tail, old, -⟩ | ⟨front, rfl, last⟩
      · exact inductionHypothesis old
      · obtain ⟨rfl, rfl, rfl⟩ : front = [] ∧ passed' = passed ∧ entry' = entry := by
          cases front <;> simp_all
        rw [List.append_nil, ← follows.next_eq]
        exact read
  | missed _ _ inductionHypothesis =>
      rcases split_append split with ⟨tail, old, -⟩ | ⟨front, -, last⟩
      · exact inductionHypothesis old
      · cases front <;> simp at last

private theorem slice_succ {position : ℕ} {entry : Entry}
    (at_position : history[position]? = some entry) (le : joined ≤ position) :
    (history.take (position + 1)).drop joined = (history.take position).drop joined ++ [entry] := by
  have within : position < history.length := (List.getElem?_eq_some_iff.mp at_position).1
  rw [List.take_add_one, at_position, List.drop_append_of_le_length]
  · rfl
  · rw [List.length_take]
    omega

theorem samples_of_exact (follows : Follows history joined readings next)
    (exact : ∀ reading ∈ readings, reading.Exact) :
    samples readings = (history.take next).drop joined := by
  induction follows with
  | join le => simp
  | @sample readings next passed entry follows read inductionHypothesis =>
      obtain rfl : passed = 0 := exact (.sample passed entry) (by simp)
      rw [samples_append, inductionHypothesis fun reading mem => exact reading (by simp [mem]),
        Nat.zero_add, slice_succ read follows.joined_le]
      rfl
  | @missed _ _ count => exact (exact (.missed count) (by simp)).elim

end Follows

variable {In Out State : Type*} (answer : In → State → Option Out × State)

def settle : State → List In → State
  | state, [] => state
  | state, input :: inputs => settle (answer input state).2 inputs

def emitted : State → List In → List Out
  | _, [] => []
  | state, input :: inputs => (answer input state).1.toList ++ emitted (answer input state).2 inputs

variable (state : State) (inputs more : List In)

@[simp] theorem settle_append :
    settle answer state (inputs ++ more) = settle answer (settle answer state inputs) more := by
  induction inputs generalizing state with
  | nil => rfl
  | cons input inputs inductionHypothesis => exact inductionHypothesis _

@[simp] theorem emitted_append : emitted answer state (inputs ++ more) =
    emitted answer state inputs ++ emitted answer (settle answer state inputs) more := by
  induction inputs generalizing state with
  | nil => rfl
  | cons input inputs inductionHypothesis =>
      rw [List.cons_append, emitted, inductionHypothesis, emitted, settle, List.append_assoc]

theorem emitted_comp {Raw : Type*} (view : Raw → In) (raw : List Raw) :
    emitted (fun entry => answer (view entry)) state raw = emitted answer state (raw.map view) := by
  induction raw generalizing state with
  | nil => rfl
  | cons entry raw inductionHypothesis => exact congrArg (_ ++ ·) (inductionHypothesis _)

variable {state inputs more}

theorem emitted_prefix (le : inputs <+: more) :
    emitted answer state inputs <+: emitted answer state more := by
  obtain ⟨rest, rfl⟩ := le
  rw [emitted_append]
  exact List.prefix_append _ _

end AimDb.Following
