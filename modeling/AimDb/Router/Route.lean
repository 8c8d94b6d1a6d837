import Mathlib.Data.List.Infix
import Mathlib.Logic.Function.Basic
import AimDb.Router

/-!
# Routing a message

A message goes to every route that matches it, in order.  A keyed route first
asks its record's key table, which turns new values away once it is full, and an
ingest that unwinds ends the loop.
-/

namespace AimDb

open Topic

/-- A record's key table: the values seen so far, in the order of their keys. -/
structure KeyTable where
  capacity : UInt16
  names : List Str := []
  /-- Messages turned away, up to `u32::MAX`. -/
  dropped : Nat := 0
  deriving DecidableEq, Repr

namespace KeyTable

/-- The key for `name`, assigned if new; `none` when the table is full. -/
def key (table : KeyTable) (name : Str) : Option Nat × KeyTable :=
  match table.names.idxOf? name with
  | some id => (some id, table)
  | none =>
      if table.names.length + 1 ≤ table.capacity.toNat then
        (some table.names.length, { table with names := table.names ++ [name] })
      else (none, { table with dropped := min (table.dropped + 1) 4294967295 })

def Full (table : KeyTable) : Prop := table.capacity.toNat ≤ table.names.length

theorem full_of_key {table : KeyTable} {name : Str} (turned : (table.key name).1 = none) :
    table.Full := by
  rw [key] at turned
  split at turned
  · cases turned
  · split at turned
    · cases turned
    · rename_i full
      exact Nat.le_of_lt_succ (Nat.lt_of_not_le full)

theorem Full.key {table : KeyTable} (full : table.Full) (name : Str) : (table.key name).2.Full := by
  rw [KeyTable.key]
  split
  · exact full
  · split
    · rename_i room
      exact absurd full (Nat.not_le_of_lt room)
    · exact full

end KeyTable

/-- The characters before byte `n`, and those from it on; `none` inside a
character or behind the end. -/
def splitAtByte : Str → Nat → Option (Str × Str)
  | s, 0 => some ([], s)
  | [], _ + 1 => none
  | c :: s, n + 1 =>
      if c.utf8Size ≤ n + 1 then
        (splitAtByte s (n + 1 - c.utf8Size)).map fun (front, back) => (c :: front, back)
      else none

/-- `str::get(start..stop)`. -/
def getBytes (s : Str) (start stop : Nat) : Option Str :=
  if start ≤ stop then do
    let (_, rest) ← splitAtByte s start
    let (body, _) ← splitAtByte rest (stop - start)
    some body
  else none

theorem splitAtByte_append (front back : Str) :
    splitAtByte (front ++ back) (byteLen front) = some (front, back) := by
  induction front with
  | nil => cases back <;> rfl
  | cons c front inductionHypothesis =>
      have wide := Char.utf8Size_pos c
      obtain ⟨n, size⟩ : ∃ n, byteLen (c :: front) = n + 1 :=
        ⟨byteLen (c :: front) - 1, by rw [byteLen_cons]; omega⟩
      have rest : n + 1 - c.utf8Size = byteLen front := by
        rw [← size, byteLen_cons]
        omega
      have fits : c.utf8Size ≤ n + 1 := by
        rw [← size, byteLen_cons]
        omega
      rw [size, List.cons_append, splitAtByte, if_pos fits, rest, inductionHypothesis]
      rfl

theorem getBytes_slice (front body back : Str) :
    getBytes (front ++ (body ++ back)) (byteLen front) (byteLen front + byteLen body) =
      some body := by
  rw [getBytes, if_pos (Nat.le_add_right _ _), splitAtByte_append, Nat.add_sub_cancel_left]
  change (splitAtByte (body ++ back) (byteLen body)).bind _ = _
  rw [splitAtByte_append]
  rfl

namespace Router

/-- `CompiledRoute::key`: the message's key, `none` when it is turned away. -/
def CompiledRoute.keyOf (route : CompiledRoute) (table : KeyTable) (topic : Str) (spans : Spans) :
    Option (Option Nat) × KeyTable :=
  match route.key with
  | none => (some none, table)
  | some capture =>
      match spans[capture]? with
      | none => (none, table)
      | some (start, stop) =>
          match getBytes topic start.toNat stop.toNat with
          | none => (none, table)
          | some value =>
              let (id, table) := table.key value
              (id.map some, table)

inductive IngestResult where
  | ok
  | error (reason : String)
  | unwound
  deriving DecidableEq, Repr

structure Ingest where
  route : Nat
  key : Option Nat
  deriving DecidableEq, Repr

structure Routed where
  ingested : List Ingest
  turnedAway : List Nat
  /-- The route whose ingest unwound, which ended the loop. -/
  unwound : Option Nat
  tables : Nat → KeyTable

/-- The loop of `Router::route` from the route `n` on. The tables are those of the
records, and `ingest` says how each ingest ends. -/
def routeFrom (ingest : Nat → IngestResult) (topic : Str) :
    List (CompiledRoute × InboundRouteInfo) → Nat → (Nat → KeyTable) → Routed
  | [], _, tables => ⟨[], [], none, tables⟩
  | (route, info) :: rest, n, tables =>
      let matched := route.isMatch topic .fresh
      if matched.1 then
        let lookup := route.keyOf (tables info.recordIndex) topic matched.2
        let tables := Function.update tables info.recordIndex lookup.2
        match lookup.1 with
        | none =>
            let later := routeFrom ingest topic rest (n + 1) tables
            { later with turnedAway := n :: later.turnedAway }
        | some key =>
            if ingest n = .unwound then ⟨[⟨n, key⟩], [], some n, tables⟩
            else
              let later := routeFrom ingest topic rest (n + 1) tables
              { later with ingested := ⟨n, key⟩ :: later.ingested }
      else routeFrom ingest topic rest (n + 1) tables

theorem CompiledRoute.keyOf_full {route : CompiledRoute} {table : KeyTable} (full : table.Full)
    (topic : Str) (spans : Spans) : (route.keyOf table topic spans).2.Full := by
  rw [keyOf]
  split
  · exact full
  · split
    · exact full
    · split
      · exact full
      · exact full.key _

/-- The matching routes among `indexed` were reached in order, up to the one that
unwound. -/
structure Routed.Of (topic : Str) (indexed : List ((CompiledRoute × InboundRouteInfo) × Nat))
    (tables : Nat → KeyTable) (routed : Routed) : Prop where
  matched : ∀ ran ∈ routed.ingested, ∃ pair, (pair, ran.route) ∈ indexed ∧
    (pair.1.isMatch topic .fresh).1 = true
  increasing : (routed.ingested.map Ingest.route).Pairwise (· < ·)
  reached : ∀ pair i, (pair, i) ∈ indexed → (pair.1.isMatch topic .fresh).1 = true →
    i ∈ routed.ingested.map Ingest.route ∨ i ∈ routed.turnedAway ∨
    ∃ j < i, routed.unwound = some j
  turned : ∀ i ∈ routed.turnedAway, ∃ pair table, (pair, i) ∈ indexed ∧
    (pair.1.isMatch topic .fresh).1 = true ∧
    (pair.1.keyOf table topic (pair.1.isMatch topic .fresh).2).1 = none ∧
    (table.Full → (routed.tables pair.2.recordIndex).Full)
  full : ∀ record, (tables record).Full → (routed.tables record).Full

section Turns

variable {topic : Str} {rest : List (CompiledRoute × InboundRouteInfo)}
  (pair : CompiledRoute × InboundRouteInfo) {n : Nat} {tables after : Nat → KeyTable}
  {later : Routed}

theorem Routed.Of.pass (of : later.Of topic (rest.zipIdx (n + 1)) tables)
    (other : (pair.1.isMatch topic .fresh).1 = false) :
    later.Of topic ((pair :: rest).zipIdx n) tables where
  matched ran isRan := by
    obtain ⟨reached, listed, matched⟩ := of.matched ran isRan
    exact ⟨reached, List.mem_cons_of_mem _ listed, matched⟩
  increasing := of.increasing
  reached pair' i listed matched := by
    rcases List.mem_cons.mp listed with same | behind
    · obtain ⟨rfl, -⟩ := Prod.mk.inj same
      rw [other] at matched
      cases matched
    · exact of.reached pair' i behind matched
  turned i isTurned := by
    obtain ⟨reached, table, listed, lookup⟩ := of.turned i isTurned
    exact ⟨reached, table, List.mem_cons_of_mem _ listed, lookup⟩
  full := of.full

theorem Routed.Of.turnAway (of : later.Of topic (rest.zipIdx (n + 1)) after)
    (matched : (pair.1.isMatch topic .fresh).1 = true)
    (lookup : (pair.1.keyOf (tables pair.2.recordIndex) topic
      (pair.1.isMatch topic .fresh).2).1 = none)
    (kept : ∀ record, (tables record).Full → (after record).Full) :
    Routed.Of topic ((pair :: rest).zipIdx n) tables
      { later with turnedAway := n :: later.turnedAway } where
  matched ran isRan := by
    obtain ⟨reached, listed, matched⟩ := of.matched ran isRan
    exact ⟨reached, List.mem_cons_of_mem _ listed, matched⟩
  increasing := of.increasing
  reached pair' i listed matched := by
    rcases List.mem_cons.mp listed with same | behind
    · obtain ⟨-, rfl⟩ := Prod.mk.inj same
      exact .inr (.inl (by simp))
    · exact (of.reached pair' i behind matched).imp_right (.imp_left (List.mem_cons_of_mem _))
  turned i isTurned := by
    rcases List.mem_cons.mp isTurned with rfl | behind
    · exact ⟨pair, tables pair.2.recordIndex, by simp, matched, lookup,
        fun full => of.full _ (kept _ full)⟩
    · obtain ⟨reached, table, listed, lookup⟩ := of.turned i behind
      exact ⟨reached, table, List.mem_cons_of_mem _ listed, lookup⟩
  full record isFull := of.full record (kept record isFull)

theorem Routed.of_unwound (matched : (pair.1.isMatch topic .fresh).1 = true) (key : Option Nat)
    (kept : ∀ record, (tables record).Full → (after record).Full) :
    Routed.Of topic ((pair :: rest).zipIdx n) tables ⟨[⟨n, key⟩], [], some n, after⟩ where
  matched ran isRan := by
    obtain rfl := List.mem_singleton.mp isRan
    exact ⟨pair, by simp, matched⟩
  increasing := by simp
  reached pair' i listed _ := by
    rcases List.mem_cons.mp listed with same | behind
    · obtain ⟨-, rfl⟩ := Prod.mk.inj same
      exact .inl (by simp)
    · have bound := List.le_snd_of_mem_zipIdx behind
      exact .inr (.inr ⟨n, bound, rfl⟩)
  turned i isTurned := by cases isTurned
  full := kept

theorem Routed.Of.ingest (of : later.Of topic (rest.zipIdx (n + 1)) after)
    (matched : (pair.1.isMatch topic .fresh).1 = true) (key : Option Nat)
    (kept : ∀ record, (tables record).Full → (after record).Full) :
    Routed.Of topic ((pair :: rest).zipIdx n) tables
      { later with ingested := ⟨n, key⟩ :: later.ingested } where
  matched ran isRan := by
    rcases List.mem_cons.mp isRan with rfl | behind
    · exact ⟨pair, by simp, matched⟩
    · obtain ⟨reached, listed, matched⟩ := of.matched ran behind
      exact ⟨reached, List.mem_cons_of_mem _ listed, matched⟩
  increasing := by
    rw [List.map_cons, List.pairwise_cons]
    refine ⟨?_, of.increasing⟩
    intro i isRan
    obtain ⟨ran, behind, rfl⟩ := List.mem_map.mp isRan
    obtain ⟨reached, listed, -⟩ := of.matched ran behind
    exact List.le_snd_of_mem_zipIdx listed
  reached pair' i listed matched := by
    rcases List.mem_cons.mp listed with same | behind
    · obtain ⟨-, rfl⟩ := Prod.mk.inj same
      exact .inl (by simp)
    · exact (of.reached pair' i behind matched).imp_left (List.mem_cons_of_mem _)
  turned i isTurned := by
    obtain ⟨reached, table, listed, lookup⟩ := of.turned i isTurned
    exact ⟨reached, table, List.mem_cons_of_mem _ listed, lookup⟩
  full record isFull := of.full record (kept record isFull)

end Turns

theorem routeFrom_of (ingest : Nat → IngestResult) (topic : Str)
    (pairs : List (CompiledRoute × InboundRouteInfo)) (n : Nat) (tables : Nat → KeyTable) :
    (routeFrom ingest topic pairs n tables).Of topic (pairs.zipIdx n) tables := by
  induction pairs generalizing n tables with
  | nil => exact ⟨by simp [routeFrom], .nil, by simp, by simp [routeFrom], fun _ full => full⟩
  | cons pair rest inductionHypothesis =>
      obtain ⟨route, info⟩ := pair
      rw [routeFrom]
      by_cases matched : (route.isMatch topic .fresh).1 = true
      · have kept : ∀ record, (tables record).Full → (Function.update tables info.recordIndex
            (route.keyOf (tables info.recordIndex) topic (route.isMatch topic .fresh).2).2
              record).Full := by
          intro record full
          by_cases own : record = info.recordIndex
          · subst own
            rw [Function.update_self]
            exact route.keyOf_full full topic _
          · rwa [Function.update_of_ne own]
        simp only [matched, if_true]
        split
        · rename_i lookup
          exact (inductionHypothesis (n + 1) _).turnAway (route, info) matched lookup kept
        · rename_i key lookup
          split
          · exact Routed.of_unwound (route, info) matched key kept
          · exact (inductionHypothesis (n + 1) _).ingest (route, info) matched key kept
      · rw [Bool.not_eq_true] at matched
        simp only [matched, Bool.false_eq_true, if_false]
        exact (inductionHypothesis (n + 1) tables).pass (route, info) matched

end Router

/-- `InboundDispatch::dispatch`. -/
def InboundDispatch.dispatch (dispatch : InboundDispatch) (ingest : Nat → Router.IngestResult)
    (tables : Nat → KeyTable) (topic : Str) : Router.Routed :=
  Router.routeFrom ingest topic (dispatch.router.routes.zip dispatch.routes) 0 tables

theorem InboundDispatch.dispatch_of (dispatch : InboundDispatch)
    (ingest : Nat → Router.IngestResult) (tables : Nat → KeyTable) (topic : Str) :
    (dispatch.dispatch ingest tables topic).Of topic
      (dispatch.router.routes.zip dispatch.routes).zipIdx tables :=
  Router.routeFrom_of ingest topic _ 0 tables

end AimDb
