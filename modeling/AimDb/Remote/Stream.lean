import AimDb.Containers.Following
import AimDb.Session.Client

/-!
# The updates of one record

`record_updates` hands out the samples of a reader, each with the count of the
updates that were lost just before it.  Over a ring the counts place every sample
in the history of its record.
-/

namespace AimDb.Remote.Stream

open Following Session
open Session.Client (saturatingAdd)

/-- What `recv_json_bytes` comes to. -/
inductive Recv where
  | ok (data : Payload) (ts : Stamp)
  | bufferLagged (lagCount : UInt64)
  | bufferClosed
  /-- Any other error, such as a value that does not serialize. -/
  | failed
  deriving DecidableEq, Repr

structure Item where
  data : Payload
  ts : Stamp
  skipped : UInt64
  deriving DecidableEq, Repr

/-- The items of the stream, given what its reader receives one after the other. -/
def recordUpdates : UInt64 → List Recv → List Item
  | _, [] => []
  | skipped, .ok data ts :: rest => ⟨data, ts, skipped⟩ :: recordUpdates 0 rest
  | skipped, .bufferLagged lagCount :: rest => recordUpdates (saturatingAdd skipped lagCount) rest
  | _, .bufferClosed :: _ | _, .failed :: _ => []

/-- `SubUpdate::new(data, ts).with_skipped(skipped)`. -/
def Item.update (item : Item) : SubUpdate :=
  { SubUpdate.new item.data item.ts with skipped := item.skipped }

abbrev Entry := Payload × Stamp

/-- How an outcome of reading the history is told to the stream. -/
def recvOf : Reading Entry → Recv
  | .sample _ (data, ts) => .ok data ts
  | .missed count => .bufferLagged (.ofNat count)

def counted (items : List Item) : ℕ := (items.map (·.skipped.toNat + 1)).sum

variable {history : List Entry} {joined next : ℕ} {readings : List (Reading Entry)}

theorem toNat_saturatingAdd {a b : UInt64} (fits : a.toNat + b.toNat < 2 ^ 64) :
    (saturatingAdd a b).toNat = a.toNat + b.toNat := by
  have size : UInt64.size = 2 ^ 64 := rfl
  rw [saturatingAdd, size, if_pos fits, UInt64.toNat_add, Nat.mod_eq_of_lt fits]

theorem readings_of_item {skipped : UInt64} {before rest : List Item} {item : Item}
    (ring : ∀ reading ∈ readings, reading.Told)
    (fits : skipped.toNat + covered readings < 2 ^ 64)
    (split : recordUpdates skipped (readings.map recvOf) = before ++ item :: rest) :
    ∃ front back, readings = front ++ .sample 0 (item.data, item.ts) :: back ∧
      skipped.toNat + covered front = counted before + item.skipped.toNat := by
  induction readings generalizing skipped before with
  | nil =>
      cases before <;> cases split
  | cons reading readings inductionHypothesis =>
      obtain ⟨told, others⟩ := List.forall_mem_cons.mp ring
      cases reading with
      | sample passed entry =>
          obtain rfl : passed = 0 := told
          cases before with
          | nil =>
              cases split
              exact ⟨[], readings, rfl, by simp [counted]⟩
          | cons first before =>
              rw [List.cons_append] at split
              injection split with same split
              have fits' : (0 : UInt64).toNat + covered readings < 2 ^ 64 := by
                simp [covered, Reading.span] at fits ⊢
                omega
              obtain ⟨front, back, rfl, count⟩ := inductionHypothesis others fits' split
              refine ⟨.sample 0 entry :: front, back, rfl, ?_⟩
              simp [← same, covered, counted, Reading.span] at count ⊢
              omega
      | missed count =>
          have small : count < 2 ^ 64 := by
            simp [covered, Reading.span] at fits
            omega
          have narrow : (UInt64.ofNat count).toNat = count := UInt64.toNat_ofNat_of_lt' small
          have sum : (saturatingAdd skipped (.ofNat count)).toNat = skipped.toNat + count := by
            rw [toNat_saturatingAdd, narrow]
            simp [covered, Reading.span] at fits
            omega
          have fits' : (saturatingAdd skipped (.ofNat count)).toNat + covered readings <
              2 ^ 64 := by
            simp [sum, covered, Reading.span] at fits ⊢
            omega
          obtain ⟨front, back, rfl, total⟩ := inductionHypothesis others fits' split
          refine ⟨.missed count :: front, back, rfl, ?_⟩
          simp [sum, covered, Reading.span] at total ⊢
          omega

theorem item_position (follows : Follows history joined readings next)
    (ring : ∀ reading ∈ readings, reading.Told) (fits : history.length < 2 ^ 64)
    {before rest : List Item} {item : Item}
    (split : recordUpdates 0 (readings.map recvOf) = before ++ item :: rest) :
    history[joined + counted before + item.skipped.toNat]? = some (item.data, item.ts) := by
  have small : (0 : UInt64).toNat + covered readings < 2 ^ 64 := by
    have le := follows.next_le
    rw [follows.next_eq] at le
    simp
    omega
  obtain ⟨front, back, rfl, count⟩ := readings_of_item ring small split
  have stands := follows.position rfl
  simp at count
  rwa [Nat.add_zero, count, ← Nat.add_assoc] at stands

/-- These updates are the first items of a stream over a record's ring. -/
def Streams (history : List Entry) (joined : ℕ) (updates : List SubUpdate) : Prop :=
  ∃ readings next, Follows history joined readings next ∧
    (∀ reading ∈ readings, reading.Told) ∧
    updates <+: (recordUpdates 0 (readings.map recvOf)).map Item.update

def accounted (updates : List SubUpdate) : ℕ := (updates.map (·.skipped.toNat + 1)).sum

theorem accounted_update (items : List Item) :
    accounted (items.map Item.update) = counted items := by
  simp [accounted, counted, Item.update, Function.comp_def]

theorem Streams.position {updates before rest : List SubUpdate} {update : SubUpdate}
    (streams : Streams history joined updates) (fits : history.length < 2 ^ 64)
    (split : updates = before ++ update :: rest) :
    history[joined + accounted before + update.skipped.toNat]? = some (update.data, update.ts) := by
  obtain ⟨readings, next, follows, ring, others, whole⟩ := streams
  rw [split, List.append_assoc, List.cons_append] at whole
  obtain ⟨items, later, items_eq, rfl, later_eq⟩ := List.map_eq_append_iff.mp whole.symm
  obtain ⟨item, later, rfl, rfl, -⟩ := List.map_eq_cons_iff.mp later_eq
  rw [accounted_update]
  exact item_position follows ring fits items_eq

end AimDb.Remote.Stream
