import Mathlib.Data.List.Basic
import Mathlib.Order.Basic
import Mathlib.Tactic.Common

/-!
# Streams cut by a length that stands in front

A measure looks at the front of a stream and tells how long the first piece is,
once enough of it has arrived.  What it has seen, more bytes do not change.
-/

namespace AimDb.Framing

variable {α φ : Type*}

structure Measure (α φ : Type*) where
  /-- `none` while more is needed; the length of the first piece, or a fault. -/
  look : List α → Option (Except φ ℕ)
  idle : look [] = none
  inside : ∀ stream size, look stream = some (.ok size) → 0 < size ∧ size ≤ stream.length
  stable : ∀ stream more seen, look stream = some seen → look (stream ++ more) = some seen

/-- The pieces taken off a stream, what is left of it, and the fault that stands there. -/
structure Cut (α φ : Type*) where
  pieces : List (List α)
  rest : List α
  fault : Option φ

namespace Measure

variable {measure : Measure α φ} {stream more : List α}

theorem length_drop_lt {size : ℕ} (seen : measure.look stream = some (.ok size)) :
    (stream.drop size).length < stream.length := by
  obtain ⟨positive, short⟩ := measure.inside stream size seen
  rw [List.length_drop]
  omega

/-- Take pieces off the stream while the first of them is complete. -/
def cut (measure : Measure α φ) (stream : List α) : Cut α φ :=
  match _ : measure.look stream with
  | none => ⟨[], stream, none⟩
  | some (.error fault) => ⟨[], stream, some fault⟩
  | some (.ok size) =>
      let later := measure.cut (stream.drop size)
      ⟨stream.take size :: later.pieces, later.rest, later.fault⟩
termination_by stream.length
decreasing_by exact length_drop_lt ‹_›

theorem cut_of_none (seen : measure.look stream = none) :
    measure.cut stream = ⟨[], stream, none⟩ := by
  rw [cut]
  split
  · rfl
  · next other => rw [seen] at other; cases other
  · next other => rw [seen] at other; cases other

theorem cut_of_error {fault : φ} (seen : measure.look stream = some (.error fault)) :
    measure.cut stream = ⟨[], stream, some fault⟩ := by
  rw [cut]
  split
  · next other => rw [seen] at other; cases other
  · next other => rw [seen] at other; cases other; rfl
  · next other => rw [seen] at other; cases other

theorem cut_of_ok {size : ℕ} (seen : measure.look stream = some (.ok size)) :
    measure.cut stream =
      ⟨stream.take size :: (measure.cut (stream.drop size)).pieces,
        (measure.cut (stream.drop size)).rest, (measure.cut (stream.drop size)).fault⟩ := by
  rw [cut]
  split
  · next other => rw [seen] at other; cases other
  · next other => rw [seen] at other; cases other
  · next other => rw [seen] at other; cases other; rfl

theorem streamInduction (measure : Measure α φ) {holds : List α → Prop}
    (waiting : ∀ stream, measure.look stream = none → holds stream)
    (faulty : ∀ stream fault, measure.look stream = some (.error fault) → holds stream)
    (piece : ∀ stream size, measure.look stream = some (.ok size) →
      holds (stream.drop size) → holds stream)
    (stream : List α) : holds stream := by
  induction size : stream.length using Nat.strongRecOn generalizing stream with
  | ind size inductionHypothesis =>
      cases seen : measure.look stream with
      | none => exact waiting stream seen
      | some verdict =>
          cases verdict with
          | error fault => exact faulty stream fault seen
          | ok length =>
              apply piece stream length seen
              apply inductionHypothesis _ _ _ rfl
              rw [← size]
              exact length_drop_lt seen

theorem flatten_cut (measure : Measure α φ) (stream : List α) :
    (measure.cut stream).pieces.flatten ++ (measure.cut stream).rest = stream := by
  induction stream using measure.streamInduction with
  | waiting stream seen => rw [cut_of_none seen]; rfl
  | faulty stream fault seen => rw [cut_of_error seen]; rfl
  | piece stream size seen inductionHypothesis =>
      rw [cut_of_ok seen, List.flatten_cons, List.append_assoc, inductionHypothesis,
        List.take_append_drop]

theorem look_rest (measure : Measure α φ) (stream : List α) :
    measure.look (measure.cut stream).rest = (measure.cut stream).fault.map .error := by
  induction stream using measure.streamInduction with
  | waiting stream seen => rw [cut_of_none seen]; exact seen
  | faulty stream fault seen => rw [cut_of_error seen]; exact seen
  | piece stream size seen inductionHypothesis => rw [cut_of_ok seen]; exact inductionHypothesis

/-- Cutting does not depend on where reads end: what was left is cut with what
follows it. -/
theorem cut_append (measure : Measure α φ) (stream more : List α) :
    measure.cut (stream ++ more) =
      ⟨(measure.cut stream).pieces ++ (measure.cut ((measure.cut stream).rest ++ more)).pieces,
        (measure.cut ((measure.cut stream).rest ++ more)).rest,
        (measure.cut ((measure.cut stream).rest ++ more)).fault⟩ := by
  induction stream using measure.streamInduction with
  | waiting stream seen => rw [cut_of_none seen]; rfl
  | faulty stream fault seen => rw [cut_of_error seen]; rfl
  | piece stream size seen inductionHypothesis =>
      obtain ⟨-, short⟩ := measure.inside stream size seen
      rw [cut_of_ok seen, cut_of_ok (measure.stable stream more _ seen),
        List.drop_append_of_le_length short, List.take_append_of_le_length short,
        inductionHypothesis]
      rfl

theorem cut_append_of_fault {fault : φ} (found : (measure.cut stream).fault = some fault)
    (more : List α) :
    measure.cut (stream ++ more) =
      ⟨(measure.cut stream).pieces, (measure.cut stream).rest ++ more, some fault⟩ := by
  have seen := measure.look_rest stream
  rw [found] at seen
  rw [cut_append, cut_of_error (measure.stable _ more _ seen), List.append_nil]

theorem cut_fault_of_append (clear : (measure.cut (stream ++ more)).fault = none) :
    (measure.cut stream).fault = none := by
  cases found : (measure.cut stream).fault with
  | none => rfl
  | some fault =>
      rw [cut_append_of_fault found] at clear
      cases clear

theorem look_of_mem {piece : List α} (taken : piece ∈ (measure.cut stream).pieces) :
    ∃ more, measure.look (piece ++ more) = some (.ok piece.length) := by
  induction stream using measure.streamInduction with
  | waiting stream seen =>
      rw [cut_of_none seen] at taken
      cases taken
  | faulty stream fault seen =>
      rw [cut_of_error seen] at taken
      cases taken
  | piece stream size seen inductionHypothesis =>
      rw [cut_of_ok seen] at taken
      rcases List.mem_cons.mp taken with rfl | later
      · obtain ⟨-, short⟩ := measure.inside stream size seen
        exact ⟨stream.drop size, by rw [List.take_append_drop,
          List.length_take_of_le short, seen]⟩
      · exact inductionHypothesis later

def Piece (measure : Measure α φ) (piece : List α) : Prop :=
  measure.look piece = some (.ok piece.length)

theorem look_of_short {piece others : List α} (whole : measure.Piece piece)
    (front : stream ++ more = piece ++ others) (short : stream.length < piece.length) :
    measure.look stream = none := by
  cases seen : measure.look stream with
  | none => rfl
  | some verdict =>
      have told := measure.stable stream more verdict seen
      rw [front, measure.stable piece others _ whole] at told
      cases told
      have inside := (measure.inside stream piece.length seen).2
      omega

theorem cut_piece {piece : List α} (whole : measure.Piece piece) (more : List α) :
    measure.cut (piece ++ more) =
      ⟨piece :: (measure.cut more).pieces, (measure.cut more).rest,
          (measure.cut more).fault⟩ := by
  rw [cut_of_ok (measure.stable piece more _ whole), List.take_left, List.drop_left]

theorem cut_pieces {pieces : List (List α)} (whole : ∀ piece ∈ pieces, measure.Piece piece)
    (more : List α) :
    measure.cut (pieces.flatten ++ more) =
      ⟨pieces ++ (measure.cut more).pieces, (measure.cut more).rest,
          (measure.cut more).fault⟩ := by
  induction pieces with
  | nil => rfl
  | cons piece pieces inductionHypothesis =>
      have later :=
        inductionHypothesis fun other inside => whole other (List.mem_cons_of_mem _ inside)
      rw [List.flatten_cons, List.append_assoc, cut_piece (whole piece List.mem_cons_self), later]
      rfl

theorem cut_flatten {pieces : List (List α)} (whole : ∀ piece ∈ pieces, measure.Piece piece) :
    measure.cut pieces.flatten = ⟨pieces, [], none⟩ := by
  have ended := cut_pieces whole []
  rwa [cut_of_none measure.idle, List.append_nil, List.append_nil] at ended

theorem cut_front {pieces : List (List α)} (whole : ∀ piece ∈ pieces, measure.Piece piece)
    (front : stream ++ more = pieces.flatten) :
    (measure.cut stream).fault = none ∧ ∃ left, pieces = (measure.cut stream).pieces ++ left ∧
      (measure.cut stream).rest ++ more = left.flatten ∧
      ∀ piece ∈ left.head?, (measure.cut stream).rest.length < piece.length := by
  have ended := cut_flatten whole
  rw [← front] at ended
  have clear : (measure.cut stream).fault = none := cut_fault_of_append (by rw [ended])
  have idle := measure.look_rest stream
  have kept := measure.flatten_cut ((measure.cut stream).rest ++ more)
  rw [cut_append, Cut.mk.injEq] at ended
  obtain ⟨all, nothingLeft, -⟩ := ended
  rw [nothingLeft, List.append_nil] at kept
  refine ⟨clear, _, all.symm, kept.symm, ?_⟩
  intro piece first
  by_contra long
  -- the piece has arrived, so that it would have been cut
  obtain ⟨others, left⟩ : ∃ others, (measure.cut ((measure.cut stream).rest ++ more)).pieces =
      piece :: others := List.head?_eq_some_iff.mp first
  have arrived : piece <+: (measure.cut stream).rest := by
    apply List.prefix_of_prefix_length_le _ (List.prefix_append _ more) (Nat.le_of_not_lt long)
    rw [← kept, left, List.flatten_cons]
    exact List.prefix_append _ _
  obtain ⟨following, split⟩ := arrived
  have seen := measure.stable piece following _
    (whole piece (by rw [← all, left]; exact List.mem_append_right _ List.mem_cons_self))
  rw [split, idle, clear] at seen
  cases seen

end Measure

end AimDb.Framing
