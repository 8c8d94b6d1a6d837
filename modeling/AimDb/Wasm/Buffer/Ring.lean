import AimDb.Containers.Following
import AimDb.Wasm.Buffer.Delivery
import Mathlib.Data.List.Induction

/-!
# A ring's reader follows what was pushed

The outcomes a browser ring gives one of its readers account for the history of the
buffer from the reader's subscription on, and tell every loss.
-/

namespace AimDb.Wasm.Buffer

open Following (Reading)

variable {T W : Type} {willWake : W → W → Bool} {buffered : Buffered T W}
    {log : List (Event T W)} {pushed : List T} {capacity joined : ℕ} {reads : List (Read T)}

def Read.reading? (read : Read T) : Option (Reading T) :=
  match read.recv with
  | .ok value => some (.sample 0 value)
  | .lagged lagCount => some (.missed lagCount)
  | .empty | .panicked => none

def readingsOf (reads : List (Read T)) : List (Reading T) := reads.filterMap Read.reading?

theorem told_readingsOf : ∀ reading ∈ readingsOf reads, reading.Told := by
  intro reading mem
  obtain ⟨read, -, same⟩ := List.mem_filterMap.mp mem
  cases recv : read.recv <;> simp [Read.reading?, recv] at same <;> subst same <;> trivial

theorem History.pushed_prefix (log : List (Event T W)) :
    ∀ read ∈ (History.of log).reads, read.pushed <+: (History.of log).pushed := by
  induction log using List.reverseRecOn with
  | nil => exact fun _ mem => (List.not_mem_nil mem).elim
  | append_singleton log event inductionHypothesis =>
      intro read mem
      rw [History.of_append, List.foldl_cons, List.foldl_nil] at mem ⊢
      cases event with
      | pushed value woken => exact (inductionHypothesis read mem).trans (List.prefix_append _ _)
      | subscribed => exact inductionHypothesis read mem
      | received reader recv | parked reader waker =>
          rcases List.mem_append.mp mem with old | new
          · exact inductionHypothesis read old
          · cases List.mem_singleton.mp new
            exact List.prefix_refl _

theorem le_remember : joined ≤ (relay capacity).remember joined reads := by
  induction reads generalizing joined with
  | nil => exact Nat.le_refl _
  | cons read reads inductionHypothesis =>
      exact Nat.le_trans (Nat.le_add_right joined read.recv.span) inductionHypothesis

theorem follows_of_accepts (joined_le : joined ≤ pushed.length)
    (prefixes : ∀ read ∈ reads, read.pushed <+: pushed)
    (accepts : (relay capacity).Accepts joined reads) :
    Following.Follows pushed joined (readingsOf reads)
        ((relay capacity).remember joined reads) := by
  induction reads using List.reverseRecOn with
  | nil => exact .join joined_le
  | append_singleton reads read inductionHypothesis =>
      obtain ⟨earlier, permitted, -⟩ := Transition.Monitor.accepts_append.mp accepts
      have follows := inductionHypothesis (fun other mem => prefixes other (by simp [mem])) earlier
      have front : read.pushed <+: pushed := prefixes read (by simp)
      have split : readingsOf (reads ++ [read]) = readingsOf reads ++ read.reading?.toList := by
        cases told : read.reading? <;> simp [readingsOf, told]
      rw [split, Transition.Monitor.remember_append]
      cases recv : read.recv with
      | ok value =>
          simp only [relay, recv] at permitted
          obtain ⟨newer, rfl⟩ := front
          have within := (List.getElem?_eq_some_iff.mp permitted.1).1
          have found : (read.pushed ++ newer)[(relay capacity).remember joined reads + 0]? =
              some value :=
            (List.getElem?_append_left within).trans permitted.1
          simpa [Read.reading?, recv, relay, Recv.span] using follows.sample found
      | lagged lagCount =>
          simp only [relay, recv] at permitted
          have le : (relay capacity).remember joined reads + lagCount ≤ pushed.length := by
            have := front.length_le
            simp only [relay] at *
            omega
          simpa [Read.reading?, recv, relay, Recv.span] using follows.missed le
      | empty => simpa [Read.reading?, recv, relay, Recv.span] using follows
      | panicked =>
          simp only [relay, recv] at permitted

theorem ring_follows (sound : 1 ≤ capacity)
    (reached : Reached willWake (.spmcRing capacity) buffered log) {reader : ℕ}
    (subscribed : (History.of log).joined[reader]? = some joined) :
    ∃ next, Following.Follows (History.of log).pushed joined
      (readingsOf ((History.of log).readsOf reader)) next := by
  have follows := reached.follows (by simpa using sound)
  have told := follows.image.owed reader joined subscribed
  refine ⟨_, follows_of_accepts ?_ ?_ told.permitted⟩
  · exact Nat.le_trans le_remember told.bounded
  · exact fun read mem => History.pushed_prefix log read (List.mem_of_mem_filter mem)

end AimDb.Wasm.Buffer
