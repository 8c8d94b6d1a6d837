import AimDb.Transition.Runs
import Mathlib.Algebra.Group.Nat.Defs
import Mathlib.Data.List.AList

/-!
# Keys of a capture

Small integers stand for the values of one capture, one table per record.  Calls of any threads
meet at the lock of the table; what a call does under the lock happens access by access.
-/

namespace AimDb.InboundKey

structure NonZeroU16 where
  get : UInt16
  nonzero : get ≠ 0
  deriving DecidableEq, Repr

/-- A capture value's key, assigned the first time the value is seen. -/
structure KeyId where
  number : NonZeroU16
  deriving DecidableEq, Repr

def KeyId.index (id : KeyId) : ℕ := id.number.get.toNat - 1

structure KeyTable where
  capacity : NonZeroU16
  byName : AList (fun _ : String => KeyId)
  names : List String
  dropped : UInt32

/-- `u16::try_from` -/
def tryFrom (n : ℕ) : Option UInt16 := if n < 2 ^ 16 then some (UInt16.ofNat n) else none

def NonZeroU16.new (n : UInt16) : Option NonZeroU16 := if h : n = 0 then none else some ⟨n, h⟩

namespace KeyTable

def new (capacity : NonZeroU16) : KeyTable := ⟨capacity, ∅, [], 0⟩

variable (table : KeyTable)

def nextId : Option KeyId :=
  (((tryFrom (table.names.length + 1)).filter (· ≤ table.capacity.get)).bind NonZeroU16.new).map
    KeyId.mk

/-- `dropped` is counted up, but not past its largest value. -/
def refuse : KeyTable :=
  { table with
    dropped := if table.dropped.toNat + 1 < 2 ^ 32 then table.dropped + 1 else table.dropped }

end KeyTable

inductive Call
  | key (name : String)
  | name (key : KeyId)
  deriving DecidableEq, Repr

/-- Where the call that holds the lock stands. -/
inductive Stage
  | called (call : Call)
  | pushing (name : String) (id : KeyId)
  | inserting (name : String) (id : KeyId)
  /-- The result is decided, the guard is dropped next. -/
  | leaving
  deriving DecidableEq, Repr

structure Shared (Thread : Type) where
  table : KeyTable
  guard : Option (Thread × Stage) := none

inductive Event (Thread : Type)
  | keyed (thread : Thread) (name : String) (result : Option KeyId)
  | named (thread : Thread) (key : KeyId) (result : Option String)
  deriving DecidableEq, Repr

inductive Action (Thread : Type)
  | lock (thread : Thread) (call : Call)
  | run

variable {Thread : Type}

def run (table : KeyTable) (thread : Thread) : Stage → Shared Thread × List (Event Thread)
  | .called (.key name) =>
      match table.byName.lookup name with
      | some id => (⟨table, some (thread, .leaving)⟩, [.keyed thread name (some id)])
      | none =>
          match table.nextId with
          | some id => (⟨table, some (thread, .pushing name id)⟩, [])
          | none => (⟨table.refuse, some (thread, .leaving)⟩, [.keyed thread name none])
  | .pushing name id =>
      (⟨{ table with names := table.names ++ [name] }, some (thread, .inserting name id)⟩, [])
  | .inserting name id =>
      (⟨{ table with byName := table.byName.insert name id }, some (thread, .leaving)⟩,
        [.keyed thread name (some id)])
  | .called (.name key) =>
      (⟨table, some (thread, .leaving)⟩, [.named thread key table.names[key.index]?])
  | .leaving => (⟨table, none⟩, [])

def step (s : Shared Thread) : Action Thread → Option (Shared Thread × List (Event Thread))
  | .lock thread call =>
      match s.guard with
      | none => some ({ s with guard := some (thread, .called call) }, [])
      | some _ => none
  | .run =>
      match s.guard with
      | none => none
      | some (thread, stage) => some (run s.table thread stage)

end AimDb.InboundKey
