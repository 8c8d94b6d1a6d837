import AimDb.Bits.Words
import AimDb.Transition.Runs

/-!
# Which outbound routes woke

Waking a route sets its bit and wakes the transport task, which then polls only routes
whose bit is set.  The task and the wakers of the producers take turns between any two
accesses to the shared words.
-/

namespace AimDb.Outbound

/-- Skips in a row one route may take before `pollReady` moves on. -/
def skipBudget : ℕ := 32

/-- What polling one route's reader did. -/
inductive Polled
  | pending
  | staged
  | skipped
  | closed
  deriving DecidableEq, Repr

def bit (id : ℕ) : BitVec 32 := 1#32 <<< (id % 32)

structure Shared where
  ready : List (BitVec 32)
  task : Bool
  /-- The transport task has been woken since it registered. -/
  notified : Bool
  deriving DecidableEq, Repr

def Shared.set (shared : Shared) (id : ℕ) : Shared :=
  { shared with ready := shared.ready.modify (id / 32) (· ||| bit id) }

def Shared.clear (shared : Shared) (id : ℕ) : Shared :=
  { shared with ready := shared.ready.modify (id / 32) (· &&& ~~~bit id) }

def Shared.register (shared : Shared) : Shared := { shared with task := true, notified := false }

def Shared.wake (shared : Shared) : Shared :=
  { shared with task := false, notified := shared.notified || shared.task }

structure ReadyRoutes where
  shared : Shared
  len : ℕ
  openWords : List (BitVec 32)
  openCount : ℕ
  cursor : ℕ
  deriving DecidableEq, Repr

/-- One pass in round-robin order; `next` counts from `start` without wrapping. -/
structure Pass where
  start : ℕ
  next : ℕ
  deriving DecidableEq, Repr

namespace ReadyRoutes

/-- `len` routes, all open and all ready. -/
def new (len : ℕ) : ReadyRoutes :=
  let openWords := (List.range len).foldl (fun words id => words.modify (id / 32) (· ||| bit id))
    (List.replicate ((len + 31) / 32) 0#32)
  ⟨⟨openWords, false, false⟩, len, openWords, len, len - 1⟩

variable (routes : ReadyRoutes)

/-- Start a pass at the route after the one served last. -/
def pass : Pass :=
  let start := if routes.len = 0 then 0 else (routes.cursor + 1) % routes.len
  ⟨start, start⟩

def served (id : ℕ) : ReadyRoutes :=
  { routes with shared := routes.shared.set id, cursor := id }

def close (id : ℕ) : ReadyRoutes :=
  if routes.openWords.getD (id / 32) 0#32 &&& bit id ≠ 0#32 then
    { routes with
      openWords := routes.openWords.modify (id / 32) (· &&& ~~~bit id)
      openCount := routes.openCount - 1 }
  else routes

/-- What word `w` holds of the open, ready routes in `lo..hi`. -/
def wordBits (lo hi w : ℕ) : BitVec 32 :=
  let bits := routes.shared.ready.getD w 0#32 &&& routes.openWords.getD w 0#32
  let bits := if w = lo / 32 then bits &&& (BitVec.allOnes 32 <<< (lo % 32)) else bits
  let top := hi - w * 32
  if w = (hi - 1) / 32 ∧ top < 32 then bits &&& ((1#32 <<< top) - 1#32) else bits

end ReadyRoutes

/-- The two halves of a pass: `start..len` and `0..start`. -/
inductive Half
  | upper
  | lower
  deriving DecidableEq, Repr

/-- Where the transport task is in `pollReady`. -/
inductive Pc
  | idle
  /-- `firstReady` is about to load word `w`. -/
  | scanning (pass : Pass) (half : Half) (w : ℕ)
  | clearing (pass : Pass) (id : ℕ)
  | polling (pass : Pass) (id : ℕ) (skips : ℕ)
  | serving (id : ℕ)
  /-- The route's own waker fires after `skipBudget` skips. -/
  | rewaking (pass : Pass) (id : ℕ)
  | notifying (pass : Pass)
  | finishing
  deriving DecidableEq, Repr

structure Transport where
  routes : ReadyRoutes
  pc : Pc
  deriving DecidableEq, Repr

inductive Outcome
  | pending
  | ready (id : ℕ)
  | done
  deriving DecidableEq, Repr

inductive Input
  | call
  | advance
  | answer (polled : Polled)
  | set (id : ℕ)
  | wake
  deriving DecidableEq, Repr

inductive Event
  | called
  | taken (id : ℕ)
  | polled (id : ℕ) (answer : Polled)
  | returned (outcome : Outcome)
  deriving DecidableEq, Repr

def range (len : ℕ) (pass : Pass) : Half → ℕ × ℕ
  | .upper => (pass.next, len)
  | .lower => (if pass.next < len then 0 else pass.next - len, pass.start)

def takeLower (len : ℕ) (pass : Pass) : Pc :=
  let (lo, hi) := range len pass .lower
  if lo < hi then .scanning pass .lower (lo / 32) else .finishing

def takeNext (len : ℕ) (pass : Pass) : Pc :=
  if pass.next < len then .scanning pass .upper (pass.next / 32) else takeLower len pass

/-- `firstReady` loads word `w` and takes its first route or goes on. -/
def scan (routes : ReadyRoutes) (pass : Pass) (half : Half) (w : ℕ) : Pc × List Event :=
  let (lo, hi) := range routes.len pass half
  let bits := routes.wordBits lo hi w
  if bits ≠ 0#32 then
    let id := w * 32 + bits.ctz.toNat
    (.clearing { pass with next := (if pass.start ≤ id then id else id + routes.len) + 1 } id,
      [.taken id])
  else if w < (hi - 1) / 32 then (.scanning pass half (w + 1), [])
  else
    match half with
    | .upper => (takeLower routes.len pass, [])
    | .lower => (.finishing, [])

def report (routes : ReadyRoutes) (pass : Pass) (id : ℕ) (skips : ℕ) :
    Polled → Transport
  | .pending => ⟨routes, takeNext routes.len pass⟩
  | .staged => ⟨routes, .serving id⟩
  | .skipped =>
      if skips + 1 = skipBudget then ⟨routes, .rewaking pass id⟩
      else ⟨routes, .polling pass id (skips + 1)⟩
  | .closed => ⟨routes.close id, takeNext routes.len pass⟩

def advance (routes : ReadyRoutes) : Pc → Option (Transport × List Event)
  | .idle => none
  | .scanning pass half w =>
      some (⟨routes, (scan routes pass half w).1⟩, (scan routes pass half w).2)
  | .clearing pass id =>
      some (⟨{ routes with shared := routes.shared.clear id }, .polling pass id 0⟩, [])
  | .polling .. => none
  | .serving id => some (⟨routes.served id, .idle⟩, [.returned (.ready id)])
  | .rewaking pass id =>
      some (⟨{ routes with shared := routes.shared.set id }, .notifying pass⟩, [])
  | .notifying pass =>
      some (⟨{ routes with shared := routes.shared.wake }, takeNext routes.len pass⟩, [])
  | .finishing =>
      some (⟨routes, .idle⟩, [.returned (if routes.openCount = 0 then .done else .pending)])

/-- `pollReady` registers the task before any bit is read. -/
def call (routes : ReadyRoutes) : Transport × List Event :=
  if routes.openCount = 0 then (⟨routes, .idle⟩, [.called, .returned .done])
  else (⟨{ routes with shared := routes.shared.register }, takeNext routes.len routes.pass⟩,
    [.called])

def step (s : Transport) : Input → Option (Transport × List Event)
  | .call => if s.pc = .idle then some (call s.routes) else none
  | .advance => advance s.routes s.pc
  | .answer polled =>
      match s.pc with
      | .polling pass id skips => some (report s.routes pass id skips polled, [.polled id polled])
      | _ => none
  | .set id =>
      if id < s.routes.len then
        some ({ s with routes := { s.routes with shared := s.routes.shared.set id } }, [])
      else none
  | .wake => some ({ s with routes := { s.routes with shared := s.routes.shared.wake } }, [])

def start (len : ℕ) : Transport := ⟨.new len, .idle⟩

end AimDb.Outbound
