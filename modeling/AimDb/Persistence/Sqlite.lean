import AimDb.Persistence.Pattern

/-!
# The SQLite backend

One thread owns the database and serves its commands in order.  Of SQLite the
model takes the meaning of the statements: BINARY collation compares bytes, a
cast blob keeps its bytes, and `ROW_NUMBER` ranks the rows that pass `WHERE`
within their partition.
-/

namespace AimDb.Persistence

open Session.TopicMatch

inductive PersistenceError where
  | backend (message : String)
  deriving DecidableEq, Repr

/-- A row of `record_history`. -/
structure Row where
  id : Nat
  recordName : String
  valueJson : String
  storedAt : Nat
  deriving DecidableEq, Repr

/-- The table, in insertion order, and the next `AUTOINCREMENT` id. -/
structure Db where
  rows : List Row := []
  nextId : Nat := 1
  deriving DecidableEq, Repr

def i64Max : Nat := 9223372036854775807

/-- `i64::try_from` of a `u64` or `usize`. -/
def toI64 (n : Nat) (overflow : String) : Except PersistenceError Nat :=
  if n ≤ i64Max then .ok n else .error (.backend overflow)

namespace Db

/-- `DbCommand::Store`: the reply, and the table after it. -/
def store (db : Db) (recordName json : String) (timestamp : Nat) :
    Except PersistenceError Unit × Db :=
  match toI64 timestamp s!"timestamp {timestamp} overflows i64" with
  | .error e => (.error e, db)
  | .ok ts =>
      (.ok (),
        { rows := db.rows ++ [⟨db.nextId, recordName, json, ts⟩], nextId := db.nextId + 1 })

/-- `DbCommand::Cleanup`: the number of rows deleted, and the table after it. -/
def cleanup (db : Db) (olderThan : Nat) : Except PersistenceError Nat × Db :=
  match toI64 olderThan s!"cleanup cutoff {olderThan} overflows i64" with
  | .error e => (.error e, db)
  | .ok cutoff =>
      (.ok (db.rows.countP fun row => decide (row.storedAt < cutoff)),
        { db with rows := db.rows.filter fun row => !decide (row.storedAt < cutoff) })

end Db

inductive DbCommand where
  | store (recordName json : String) (timestamp : Nat)
  | cleanup (olderThan : Nat)
  deriving DecidableEq, Repr

/-- One turn of `run_db_thread`. -/
def Db.step (db : Db) : DbCommand → Db
  | .store recordName json timestamp => (db.store recordName json timestamp).2
  | .cleanup olderThan => (db.cleanup olderThan).2

def Db.after (history : List DbCommand) : Db := history.foldl Db.step {}

structure QueryParams where
  limitPerRecord : Option Nat := none
  startTime : Option Nat := none
  endTime : Option Nat := none
  deriving DecidableEq, Repr

/-- A row as a query returns it. -/
structure StoredValue (V : Type) where
  recordName : String
  value : V
  storedAt : Nat
  deriving DecidableEq, Repr

/-- The row mapping; `decode` is `serde_json::from_str`, with `null` for a text it
refuses. -/
def Row.toStored {V : Type} (decode : String → V) (row : Row) : StoredValue V :=
  ⟨row.recordName, decode row.valueJson, row.storedAt⟩

/-- `ORDER BY stored_at DESC, id DESC`: the row `a` comes before `b`. -/
def Row.newer (a b : Row) : Bool :=
  decide (b.storedAt < a.storedAt) || (a.storedAt == b.storedAt && decide (b.id < a.id))

/-- The `WHERE` clause; a parameter that is `NULL` asks for nothing. -/
def Row.passes (scanFrom : Option String) (scanUntil : Option (List UInt8))
    (startTime endTime : Option Nat) (row : Row) : Bool :=
  (scanFrom.all fun start => !decide (BytesBelow (asBytes row.recordName) (asBytes start))) &&
    (scanUntil.all fun stop => decide (BytesBelow (asBytes row.recordName) stop)) &&
    (startTime.all fun start => decide (start ≤ row.storedAt)) &&
    endTime.all fun stop => decide (row.storedAt ≤ stop)

/-- `ROW_NUMBER() OVER (PARTITION BY record_name ORDER BY stored_at DESC, id DESC)`. -/
def rowNumber (rows : List Row) (row : Row) : Nat :=
  rows.countP (fun other => other.recordName == row.recordName && other.newer row) + 1

def select (rows : List Row) (scanFrom : Option String) (startTime endTime limit : Option Nat)
    (scanUntil : Option (List UInt8)) : List Row :=
  let ranked := rows.filter (Row.passes scanFrom scanUntil startTime endTime)
  ranked.filter fun row => limit.all fun limit => decide (rowNumber ranked row ≤ limit)

/-- What SQLite decides for itself: the final `ORDER BY record_name, stored_at DESC`
leaves open in which order equal rows come. -/
structure Sqlite where
  orderBy : List Row → List Row

def Sqlite.Documented (sqlite : Sqlite) : Prop := ∀ rows, (sqlite.orderBy rows).Perm rows

def optionalI64 (n : Option Nat) (overflow : String) : Except PersistenceError (Option Nat) :=
  match n with
  | none => .ok none
  | some n => (toI64 n overflow).map some

def querySync {V : Type} (sqlite : Sqlite) (decode : String → V) (db : Db) (pattern : String)
    (params : QueryParams) : Except PersistenceError (List (StoredValue V)) := do
  let limit ← optionalI64 params.limitPerRecord "limit_per_record overflows i64"
  let (scanFrom, scanUntil) := scanRange pattern
  let startTime ← optionalI64 params.startTime "start_time overflows i64"
  let endTime ← optionalI64 params.endTime "end_time overflows i64"
  let rows := sqlite.orderBy (select db.rows scanFrom startTime endTime limit scanUntil)
  -- the range only narrowed; the wildcards apply here
  .ok ((rows.map (Row.toStored decode)).filter fun value => topicMatches pattern value.recordName)

/-- Ids count up in insertion order. -/
structure Db.Numbered (db : Db) : Prop where
  rising : db.rows.Pairwise fun a b => a.id < b.id
  below : ∀ row ∈ db.rows, row.id < db.nextId

theorem toI64_cases (n : Nat) (overflow : String) :
    toI64 n overflow = .ok n ∨ toI64 n overflow = .error (.backend overflow) := by
  rw [toI64]
  split
  · exact .inl rfl
  · exact .inr rfl

theorem Db.Numbered.step {db : Db} (numbered : db.Numbered) (command : DbCommand) :
    (db.step command).Numbered := by
  obtain ⟨rising, below⟩ := numbered
  cases command with
  | store recordName json timestamp =>
      rw [Db.step, Db.store]
      rcases toI64_cases timestamp s!"timestamp {timestamp} overflows i64" with fits | overflows
      · rw [fits]
        constructor
        · rw [List.pairwise_append]
          refine ⟨rising, List.pairwise_singleton _ _, ?_⟩
          intro row isRow other isNew
          rw [List.mem_singleton.mp isNew]
          exact below row isRow
        · intro row isRow
          rcases List.mem_append.mp isRow with old | new
          · exact Nat.lt_succ_of_lt (below row old)
          · rw [List.mem_singleton.mp new]
            exact Nat.lt_succ_self db.nextId
      · rw [overflows]
        exact ⟨rising, below⟩
  | cleanup olderThan =>
      rw [Db.step, Db.cleanup]
      rcases toI64_cases olderThan s!"cleanup cutoff {olderThan} overflows i64" with
        fits | overflows
      · rw [fits]
        exact ⟨rising.filter _, fun row isRow => below row (List.mem_of_mem_filter isRow)⟩
      · rw [overflows]
        exact ⟨rising, below⟩

theorem Db.numbered_after (history : List DbCommand) : (Db.after history).Numbered := by
  have run : ∀ (commands : List DbCommand) (db : Db), db.Numbered →
      Db.Numbered (commands.foldl Db.step db) := by
    intro commands
    induction commands with
    | nil => exact fun db numbered => numbered
    | cons command commands inductionHypothesis =>
        exact fun db numbered => inductionHypothesis _ (numbered.step command)
  exact run history {} ⟨.nil, fun row isRow => (by cases isRow)⟩

end AimDb.Persistence
