import AimDb.Error
import AimDb.Session.Messages
import AimDb.Transition.Runs
import Mathlib.Logic.Function.Basic

/-!
# The drain cursors of a connection

A connection reads a ring through a cursor of its own, opened by the first `record.drain` or
`record.get` of the record and shared by both.  Producers push between any two reads.
-/

namespace AimDb.Session.Aimx.Drain

structure Stamped (α : Type) where
  value : α
  stamp : UInt64
  deriving DecidableEq, Repr

structure Reader (V : Type) where
  unread : List (Stamped V) := []
  /-- Values overwritten since the last report of a lag. -/
  missed : ℕ := 0
  deriving DecidableEq, Repr

/-- A record, as a name resolves to it. -/
inductive Lookup (V J : Type)
  | unknown
  /-- Without `with_remote_access`. -/
  | sealed
  | ring (encode : V → Option J)

inductive Kind
  | get
  /-- No limit stands for the largest `usize`, which no list of values reaches. -/
  | drain (limit : Option ℕ)
  deriving DecidableEq, Repr

structure Call (J : Type) where
  name : String
  kind : Kind
  values : List (Stamped J)
  deriving DecidableEq, Repr

inductive Event (V J : Type)
  | pushed (name : String) (sample : Stamped V)
  | overwrote (name : String) (samples : List (Stamped V))
  | opened (name : String)
  | began (name : String)
  | received (name : String) (sample : Stamped V)
  | drained (name : String) (limit : Option ℕ) (values : List (Stamped J)) (count : ℕ)
  /-- A get has read these values and answers with one, or with `NotFound`. -/
  | got (name : String) (values : List (Stamped J)) (result : Option (Stamped J))
  | refused (name : String) (error : RpcError)
  deriving DecidableEq, Repr

inductive Action (V : Type)
  /-- A producer pushes; the ring overwrites the oldest unread values. -/
  | push (name : String) (sample : Stamped V) (overwritten : ℕ)
  | call (name : String) (kind : Kind)
  /-- The call in progress reads its cursor once. -/
  | recv

structure AimxSession (V J : Type) where
  drainReaders : String → Option (Reader V) := fun _ => none
  call : Option (Call J) := none

variable {V J : Type}

namespace Reader

def push (reader : Reader V) (sample : Stamped V) (overwritten : ℕ) : Reader V :=
  ⟨reader.unread.drop overwritten ++ [sample],
    reader.missed + (reader.unread.take overwritten).length⟩

def tryRecv (reader : Reader V) (name : String) : Except DbError (Stamped V) × Reader V :=
  if reader.missed ≠ 0 then
    (.error (.bufferLagged (UInt64.ofNat reader.missed) name), { reader with missed := 0 })
  else
    match reader.unread with
    | [] => (.error .bufferEmpty, reader)
    | sample :: unread => (.ok sample, { reader with unread })

end Reader

def encodeSample (encode : V → Option J) (sample : Stamped V) : Option (Stamped J) :=
  (encode sample.value).map fun value => ⟨value, sample.stamp⟩

def tryEncode (encode : V → Option J) :
    Except DbError (Stamped V) → Except DbError (Stamped J)
  | .ok sample =>
      match encodeSample encode sample with
      | some value => .ok value
      | none => .error (.runtimeError "Failed to serialize value to JSON")
  | .error e => .error e

variable (s : AimxSession V J)

def AimxSession.setReader (name : String) (reader : Reader V) : AimxSession V J :=
  { s with drainReaders := Function.update s.drainReaders name (some reader) }

def Call.reply (call : Call J) : Event V J :=
  match call.kind with
  | .get => .got call.name call.values call.values.getLast?
  | .drain limit => .drained call.name limit call.values call.values.length

/-- The loop of `drain_values` ends. -/
def AimxSession.answer (call : Call J) : AimxSession V J × List (Event V J) :=
  ({ s with call := none }, [call.reply])

def Call.isFull (call : Call J) : Bool :=
  match call.kind with
  | .drain (some limit) => decide (limit ≤ call.values.length)
  | _ => false

/-- What the value that was read, if any, leaves in the log. -/
def receipt (name : String) : Except DbError (Stamped V) → List (Event V J)
  | .ok sample => [.received name sample]
  | .error _ => []

/-- One turn of the loop of `drain_values`. -/
def AimxSession.recv (encode : V → Option J) (call : Call J) (reader : Reader V) :
    AimxSession V J × List (Event V J) :=
  if call.isFull then s.answer call
  else
    let (result, reader) := reader.tryRecv call.name
    let read := s.setReader call.name reader
    match tryEncode encode result with
    | .ok value =>
        ({ read with call := some { call with values := call.values ++ [value] } },
          receipt call.name result)
    | .error .bufferEmpty => read.answer call
    | .error (.bufferLagged ..) => (read, [])
    | .error _ => ((read.answer call).1, receipt call.name result ++ (read.answer call).2)

variable (records : String → Lookup V J)

/-- A ring has no canonical latest value, so a get reads the cursor as a drain does. -/
def AimxSession.begin (name : String) (kind : Kind) : AimxSession V J × List (Event V J) :=
  match s.drainReaders name with
  | some _ => ({ s with call := some ⟨name, kind, []⟩ }, [.began name])
  | none =>
      match records name with
      | .unknown => (s, [.refused name .notFound])
      | .sealed => (s, [.refused name .internal])
      | .ring _ =>
          ({ s.setReader name {} with call := some ⟨name, kind, []⟩ },
            [.opened name, .began name])

def step (s : AimxSession V J) : Action V → Option (AimxSession V J × List (Event V J))
  | .push name sample overwritten =>
      match s.drainReaders name with
      | some reader =>
          some (s.setReader name (reader.push sample overwritten),
            [.overwrote name (reader.unread.take overwritten), .pushed name sample])
      | none => some (s, [.pushed name sample])
  | .call name kind =>
      match s.call with
      | some _ => none
      | none => some (s.begin records name kind)
  | .recv =>
      match s.call with
      | none => none
      | some call =>
          match s.drainReaders call.name, records call.name with
          | some reader, .ring encode => some (s.recv encode call reader)
          | _, _ => none

end AimDb.Session.Aimx.Drain
