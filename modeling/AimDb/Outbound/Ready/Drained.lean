import AimDb.Outbound.Ready.WakeUps
import Mathlib.Algebra.BigOperators.Group.Finset.Basic
import Mathlib.Algebra.BigOperators.Group.Finset.Piecewise
import Mathlib.Algebra.GroupWithZero.Nat

/-!
# Every value is polled out

While the transport task is parked, an unread value has a wake in progress.  Without new
values the task comes to rest, and then nothing is left unread.
-/

namespace AimDb.Outbound

open Transition

variable {V : Type}

def Happened.wroteTo (id : ℕ) : Happened V → Option V
  | .wrote other value => if other = id then some value else none
  | .read .. => none

def Happened.readFrom (id : ℕ) : Happened V → Option V
  | .read other value => if other = id then some value else none
  | .wrote .. => none

namespace Feed

variable {s s' : Feed V} {events : List (Happened V)}

/-- The last call returned `Pending` and the task has not been woken since it registered. -/
structure Parked (s : Feed V) : Prop where
  idle : s.transport.pc = .idle
  pending : s.outcome = some .pending
  unnotified : s.transport.routes.shared.notified = false

theorem Woken.parked (woken : Woken s) (parked : s.Parked) {j : ℕ} (isOpen : s.IsOpen j)
    (unread : (s.route j).unread ≠ []) :
    s.transport.routes.shared.task = true ∧ ∃ wake ∈ s.waking, wake.id = j := by
  constructor
  · rcases woken.registered (.inr parked.pending) with task | notified
    · exact task
    · rw [parked.unnotified] at notified
      cases notified
  · rcases woken.marked j isOpen with armed | waking | isReady | here
    · exact absurd (woken.armed j armed).1 unread
    · exact ⟨_, waking, rfl⟩
    · rcases woken.foreseen j isOpen isReady with waking | foreseen
      · exact ⟨_, waking, rfl⟩
      · exfalso
        cases foreseen with
        | notified held =>
            rw [parked.unnotified] at held
            cases held
        | waits waits =>
            have current := waits.current
            rw [parked.idle] at current
            cases current
        | clears other =>
            rw [parked.idle] at other
            cases other
        | serves other =>
            rw [parked.idle] at other
            cases other
        | notifies other =>
            rw [parked.idle] at other
            cases other
        | rests _ other => exact other parked.pending
    · rw [parked.idle] at here
      cases here

/-- Values are read in the order they were written, each once. -/
def InOrder (s : Feed V) (log : List (Happened V)) : Prop :=
  ∀ id, log.filterMap (Happened.wroteTo id) =
    log.filterMap (Happened.readFrom id) ++ (s.route id).unread

theorem unread_wakeReader {id j : ℕ} {route : Route V} :
    ((s.wakeReader id route).route j).unread =
      (if j = id then route.unread else (s.route j).unread) := by
  obtain ⟨other, -, -⟩ := wakeReader_spec s id route j
  split
  · rename_i same
    subst same
    unfold wakeReader
    split
    · change (Function.update s.route j _ j).unread = _
      rw [Function.update_self]
    · change (Function.update s.route j _ j).unread = _
      rw [Function.update_self]
  · rename_i away
    rw [other away]

theorem inOrder_step {log : List (Happened V)} (inOrder : s.InOrder log) {action : Action V}
    (stepped : Stepped s action s' events) : s'.InOrder (log ++ events) := by
  intro id
  rw [List.filterMap_append, List.filterMap_append]
  have quiet : ∀ route : Route V, route.unread = (s.route id).unread →
      log.filterMap (Happened.wroteTo id) ++ [] =
        (log.filterMap (Happened.readFrom id) ++ []) ++ route.unread := by
    intro route same
    rw [List.append_nil, List.append_nil, same]
    exact inOrder id
  have updated : ∀ (other : ℕ) (route : Route V), route.unread = (s.route other).unread →
      (Function.update s.route other route id).unread = (s.route id).unread := by
    intro other route same
    by_cases here : id = other
    · subst here
      rw [Function.update_self]
      exact same
    · rw [Function.update_of_ne here]
  cases stepped with
  | own => exact quiet _ rfl
  | @takes pass other skips staged value rest polled after here unread same did =>
      change log.filterMap (Happened.wroteTo id) ++ [] =
        (log.filterMap (Happened.readFrom id) ++ [Happened.read other value].filterMap
          (Happened.readFrom id)) ++ (Function.update s.route other _ id).unread
      by_cases this : id = other
      · subst this
        rw [Function.update_self, List.append_nil, inOrder id, unread, List.filterMap_cons_some
          (show Happened.readFrom id (.read id value) = some value from if_pos rfl)]
        simp
      · rw [Function.update_of_ne this, List.filterMap_cons_none
          (show Happened.readFrom id (.read other value) = none from if_neg (Ne.symm this))]
        exact quiet _ rfl
  | lags => exact quiet _ (updated _ _ rfl)
  | parks => exact quiet _ (updated _ _ rfl)
  | defers => exact quiet _ (updated _ _ rfl)
  | closes => exact quiet _ rfl
  | @writes other value isRoute =>
      rw [unread_wakeReader]
      by_cases this : id = other
      · subst this
        rw [if_pos rfl, List.filterMap_cons_some
          (show Happened.wroteTo id (.wrote id value) = some value from if_pos rfl),
          List.filterMap_cons_none (show Happened.readFrom id (.wrote id value) = none from rfl),
          inOrder id]
        simp
      · rw [if_neg this, List.filterMap_cons_none
          (show Happened.wroteTo id (.wrote other value) = none from if_neg (Ne.symm this))]
        exact quiet _ rfl
  | @shuts other isRoute =>
      rw [unread_wakeReader]
      by_cases this : id = other
      · subst this
        rw [if_pos rfl]
        exact quiet _ rfl
      · rw [if_neg this]
        exact quiet _ rfl
  | sets => exact quiet _ rfl
  | wakes => exact quiet _ rfl

end Feed

/-- After the last call nothing is open and no call runs. -/
def Final (t : Transport) (outcome : Option Outcome) : Prop :=
  outcome = some .done → t.pc = .idle ∧ t.routes.openCount = 0

section

variable {t : Transport} {input : Input} {after : Transport × List Event}
  {outcome : Option Outcome}

theorem Final.step (valid : t.Valid) (final : Final t outcome) (stepped : Stepped t input after) :
    Final after.1 (after.2.foldl Feed.returns outcome) := by
  have running : t.pc ≠ .idle → outcome ≠ some .done := fun busy done => busy (final done).1
  cases stepped with
  | refuses closed => exact fun _ => ⟨rfl, closed⟩
  | calls some' => exact fun done => absurd (final done).2 some'
  | scans =>
      rw [returns_scan (scanned valid.routes valid.pc.1 valid.pc.2)]
      exact fun done => absurd done (running fun same => by cases same)
  | clears => exact fun done => absurd done (running fun same => by cases same)
  | answers => exact fun done => absurd done (running fun same => by cases same)
  | serves => exact fun done => by cases done
  | rewakes => exact fun done => absurd done (running fun same => by cases same)
  | notifies => exact fun done => absurd done (running fun same => by cases same)
  | @finishes routes =>
      intro done
      refine ⟨rfl, ?_⟩
      by_contra some'
      rw [if_neg some'] at done
      cases done
  | sets => exact final
  | wakes => exact final

/-- What a call still brings about when it goes on by itself. -/
def carry (K : ℕ) : Pc → ℕ
  | .serving _ => K
  | .rewaking _ _ => K
  | .notifying _ => K
  | _ => 0

def owed (t : Transport) (outcome : Option Outcome) : ℕ :=
  if outcome = some .done then 0
  else t.routes.shared.notified.toNat + if t.pc = .idle ∧ outcome ≠ some .pending then 1 else 0

def debt (K : ℕ) (t : Transport) (outcome : Option Outcome) : ℕ :=
  carry K t.pc + K * owed t outcome

def Input.adds (K : ℕ) : Input → ℕ
  | .answer .staged => K
  | .answer .skipped => K
  | .wake => K
  | _ => 0

@[simp] theorem carry_takeNext (K len : ℕ) (pass : Pass) : carry K (takeNext len pass) = 0 := by
  unfold takeNext takeLower
  dsimp only
  split
  · rfl
  · split <;> rfl

theorem takeNext_ne_idle (len : ℕ) (pass : Pass) : takeNext len pass ≠ .idle := by
  unfold takeNext takeLower
  dsimp only
  split
  · exact fun same => by cases same
  · split <;> exact fun same => by cases same

theorem owed_of_busy (busy : t.pc ≠ .idle) (notDone : outcome ≠ some .done) :
    owed t outcome = t.routes.shared.notified.toNat := by
  rw [owed, if_neg notDone, if_neg fun held => busy held.1, Nat.add_zero]

theorem debt_of_busy (K : ℕ) (busy : t.pc ≠ .idle) (notDone : outcome ≠ some .done) :
    debt K t outcome = carry K t.pc + K * t.routes.shared.notified.toNat := by
  rw [debt, owed_of_busy busy notDone]

theorem toNat_wake (shared : Shared) :
    shared.wake.notified.toNat ≤ shared.notified.toNat + 1 := by
  cases shared.wake.notified
  · exact Nat.zero_le _
  · exact Nat.le_add_left _ _

theorem debt_step (K : ℕ) (valid : t.Valid) (final : Final t outcome)
    (stepped : Stepped t input after) (goesOn : input ≠ .call) :
    debt K after.1 (after.2.foldl Feed.returns outcome) ≤ debt K t outcome + input.adds K := by
  have running : t.pc ≠ .idle → outcome ≠ some .done := fun busy done => busy (final done).1
  cases stepped with
  | refuses => exact absurd rfl goesOn
  | calls => exact absurd rfl goesOn
  | @scans routes pass half w =>
      have notDone := running fun same => by cases same
      have scans := scanned valid.routes valid.pc.1 valid.pc.2
      have before := debt_of_busy K (t := ⟨routes, .scanning pass half w⟩)
        (fun same => by cases same) notDone
      rw [returns_scan scans, before]
      generalize scan routes pass half w = found at scans
      cases scans with
      | takes => exact Nat.le_of_eq (debt_of_busy K (fun same => by cases same) notDone)
      | goes on =>
          rcases on with rfl | ⟨_, _, rfl, -⟩
          · exact Nat.le_of_eq (debt_of_busy K (fun same => by cases same) notDone)
          · exact Nat.le_of_eq (debt_of_busy K (fun same => by cases same) notDone)
  | clears =>
      have notDone := running fun same => by cases same
      rw [debt_of_busy K (fun same => by cases same) notDone]
      exact Nat.le_of_eq (debt_of_busy K (fun same => by cases same) notDone)
  | @answers routes pass id skips polled =>
      have notDone := running fun same => by cases same
      have busy : (report routes pass id skips polled).pc ≠ .idle ∧
          carry K (report routes pass id skips polled).pc ≤ (Input.answer polled).adds K := by
        cases polled with
        | pending => exact ⟨takeNext_ne_idle _ _, Nat.le_of_eq (carry_takeNext _ _ _)⟩
        | staged => exact ⟨(fun same => by cases same), Nat.le_refl _⟩
        | skipped =>
            unfold report
            dsimp only
            split
            · exact ⟨(fun same => by cases same), Nat.le_refl _⟩
            · exact ⟨(fun same => by cases same), Nat.zero_le _⟩
        | closed => exact ⟨takeNext_ne_idle _ _, Nat.le_of_eq (carry_takeNext _ _ _)⟩
      have before := debt_of_busy K (t := ⟨routes, .polling pass id skips⟩)
        (fun same => by cases same) notDone
      have later := debt_of_busy K busy.1 notDone
      rw [report_shared] at later
      change debt K (report routes pass id skips polled) outcome ≤ _
      rw [later, before, Nat.add_right_comm]
      exact Nat.add_le_add_right (Nat.le_trans busy.2 (Nat.le_add_left _ _)) _
  | @serves routes id =>
      have notDone := running fun same => by cases same
      rw [debt_of_busy K (fun same => by cases same) notDone]
      change 0 + K * (routes.shared.notified.toNat + 1) ≤ K + K * routes.shared.notified.toNat + 0
      rw [Nat.mul_add]
      omega
  | rewakes =>
      have notDone := running fun same => by cases same
      rw [debt_of_busy K (fun same => by cases same) notDone]
      exact Nat.le_of_eq (debt_of_busy K (fun same => by cases same) notDone)
  | @notifies routes pass =>
      have notDone := running fun same => by cases same
      have before := debt_of_busy K (t := ⟨routes, .notifying pass⟩)
        (fun same => by cases same) notDone
      have later := debt_of_busy K
        (t := ⟨{ routes with shared := routes.shared.wake }, takeNext routes.len pass⟩)
        (takeNext_ne_idle _ _) notDone
      rw [carry_takeNext] at later
      change debt K ⟨{ routes with shared := routes.shared.wake }, _⟩ outcome ≤ _
      rw [later, before]
      have wakes := Nat.mul_le_mul_left K (toNat_wake routes.shared)
      change 0 + K * routes.shared.wake.notified.toNat ≤ K + K * routes.shared.notified.toNat + 0
      rw [Nat.mul_add] at wakes
      omega
  | @finishes routes =>
      have notDone := running fun same => by cases same
      rw [debt_of_busy K (fun same => by cases same) notDone]
      simp only [List.foldl_cons, List.foldl_nil, Feed.returns]
      split
      · exact Nat.zero_le _
      · exact Nat.le_refl _
  | sets => exact Nat.le_refl _
  | @wakes routes pc =>
      have wakes := toNat_wake routes.shared
      have later : owed ⟨{ routes with shared := routes.shared.wake }, pc⟩ outcome ≤
          owed ⟨routes, pc⟩ outcome + 1 := by
        simp only [owed]
        split
        · exact Nat.zero_le _
        · omega
      have more := Nat.mul_le_mul_left K later
      rw [Nat.mul_add] at more
      change carry K pc + K * owed
        ⟨{ routes with shared := routes.shared.wake }, pc⟩ outcome ≤
        carry K pc + K * owed ⟨routes, pc⟩ outcome + K
      omega

end

namespace Feed

variable {s s' : Feed V} {events : List (Happened V)}

/-- The task polls again: it was woken, or the last call did not come to an end. -/
structure Runnable (s : Feed V) : Prop where
  unfinished : s.outcome ≠ some .done
  due : s.transport.routes.shared.notified = true ∨ s.outcome ≠ some .pending

/-- Nothing new is written, and the task is polled after every wake and every value. -/
def Quiet (s : Feed V) : Action V → Prop
  | .call => s.Runnable
  | .advance => True
  | .read _ => True
  | .wake _ => True
  | _ => False

/-- A reader reports a lag, or wakes itself, and its route is no closer to empty. -/
def Idles : Action V → Bool
  | .read .lag => true
  | .read .defer => true
  | _ => false

def callCost (s : Feed V) : ℕ := callBound s.transport.routes.len + 1

def unreadCount (s : Feed V) : ℕ :=
  ∑ j ∈ Finset.range s.transport.routes.len, (s.route j).unread.length

def Wake.cost (K : ℕ) (wake : Wake) : ℕ := if wake.isSet then K + 1 else K + 2

def potential (s : Feed V) : ℕ :=
  2 * s.callCost * s.unreadCount + (s.waking.map (Wake.cost s.callCost)).sum +
    debt s.callCost s.transport s.outcome + rank s.transport.routes.len s.transport.pc

theorem sum_map_erase {K : ℕ} {wakes : List Wake} {wake : Wake} (inside : wake ∈ wakes) :
    (wakes.map (Wake.cost K)).sum = Wake.cost K wake + ((wakes.erase wake).map (Wake.cost K)).sum :=
  (List.sum_map_erase _ inside).symm

theorem unreadCount_take {id : ℕ} {value : V} {rest : List V} {a : Bool}
    (isRoute : id < s.transport.routes.len) (unread : (s.route id).unread = value :: rest) :
    (∑ j ∈ Finset.range s.transport.routes.len,
      (Function.update s.route id { s.route id with unread := rest, armed := a } j).unread.length) +
        1 = s.unreadCount := by
  have inside := Finset.mem_range.mpr isRoute
  rw [unreadCount, ← Finset.add_sum_erase _ _ inside, ← Finset.add_sum_erase _ _ inside,
    Function.update_self, unread, List.length_cons]
  have others : ∀ j ∈ (Finset.range s.transport.routes.len).erase id,
      (Function.update s.route id { s.route id with unread := rest, armed := a } j).unread.length =
        (s.route j).unread.length := by
    intro j other
    rw [Function.update_of_ne (Finset.ne_of_mem_erase other)]
  rw [Finset.sum_congr rfl others]
  change rest.length + _ + 1 = _
  omega

theorem unreadCount_same (id : ℕ) {route : Route V} (same : route.unread = (s.route id).unread) :
    (∑ j ∈ Finset.range s.transport.routes.len,
      (Function.update s.route id route j).unread.length) =
      s.unreadCount := by
  apply Finset.sum_congr rfl
  intro j _
  by_cases here : j = id
  · subst here
    rw [Function.update_self, same]
  · rw [Function.update_of_ne here]

theorem potential_call (valid : s.transport.Valid) (runnable : s.Runnable)
    {after : Transport × List Event} (did : Outbound.Stepped s.transport .call after) :
    after.1.routes.len = s.transport.routes.len ∧
      debt s.callCost after.1 (after.2.foldl returns s.outcome) +
        rank after.1.routes.len after.1.pc + 1 ≤
        debt s.callCost s.transport s.outcome := by
  obtain ⟨transport, route, waking, outcome⟩ := s
  have due : ∀ routes, transport = ⟨routes, .idle⟩ → callBound routes.len + 1 ≤
      debt (callBound routes.len + 1) transport outcome := by
    rintro routes rfl
    have once : 1 ≤ owed ⟨routes, .idle⟩ outcome := by
      rw [owed, if_neg runnable.unfinished]
      rcases runnable.due with notified | unfinished
      · change routes.shared.notified = true at notified
        change 1 ≤ routes.shared.notified.toNat + _
        rw [notified, Bool.toNat_true]
        exact Nat.le_add_right _ _
      · rw [if_pos ⟨rfl, unfinished⟩]
        exact Nat.le_add_left _ _
    rw [debt]
    have whole := Nat.mul_le_mul_left (callBound routes.len + 1) once
    omega
  cases did with
  | @refuses routes closed =>
      refine ⟨rfl, ?_⟩
      have enough := due routes rfl
      have none : debt (callBound routes.len + 1) ⟨routes, .idle⟩ (some .done) = 0 := by
        rw [debt, owed, if_pos rfl]
        rfl
      change debt (callBound routes.len + 1) ⟨routes, .idle⟩ (some .done) + 0 + 1 ≤
        debt (callBound routes.len + 1) ⟨routes, .idle⟩ outcome
      omega
  | @calls routes some' =>
      refine ⟨rfl, ?_⟩
      have enough := due routes rfl
      have busy := debt_of_busy (callBound routes.len + 1)
        (t := ⟨{ routes with shared := routes.shared.register },
          takeNext routes.len routes.pass⟩)
        (takeNext_ne_idle _ _) runnable.unfinished
      rw [carry_takeNext] at busy
      have bounded := rank_call routes
      unfold call at bounded
      rw [if_neg some'] at bounded
      change rank routes.len (takeNext routes.len routes.pass) ≤ callBound routes.len at bounded
      change debt (callBound routes.len + 1)
        ⟨{ routes with shared := routes.shared.register },
          takeNext routes.len routes.pass⟩ outcome +
          rank routes.len (takeNext routes.len routes.pass) + 1 ≤ _
      rw [busy]
      change 0 + _ * (false).toNat + _ + 1 ≤
        debt (callBound routes.len + 1) ⟨routes, .idle⟩ outcome
      rw [Bool.toNat_false]
      omega

/-- What a reader that leaves its route as it is may set off: a call, and the wake before it. -/
def spend (s : Feed V) (action : Action V) : ℕ :=
  if Idles action then s.callCost + 2 else 0

theorem potential_step (woken : Woken s) (final : Final s.transport s.outcome) {action : Action V}
    (quiet : s.Quiet action) (stepped : Stepped s action s' events) :
    s'.callCost = s.callCost ∧ s'.potential + 1 ≤ s.potential + s.spend action := by
  have valid := woken.valid
  have moved : ∀ {input : Input} {after : Transport × List Event},
      Outbound.Stepped s.transport input after → input ≠ .call →
      after.1.routes.len = s.transport.routes.len ∧
        rank s.transport.routes.len after.1.pc + input.IsOwn.toNat ≤
          rank s.transport.routes.len s.transport.pc ∧
        debt s.callCost after.1 (after.2.foldl returns s.outcome) ≤
          debt s.callCost s.transport s.outcome + input.adds s.callCost := by
    intro input after did goesOn
    obtain ⟨sameLen, less⟩ := rank_step valid did goesOn
    exact ⟨sameLen, less, debt_step s.callCost valid final did goesOn⟩
  cases stepped with
  | @own _ input after which did =>
      rcases which with ⟨rfl, rfl⟩ | ⟨rfl, rfl⟩
      · obtain ⟨sameLen, less⟩ := potential_call valid quiet did
        refine ⟨congrArg (callBound · + 1) sameLen, ?_⟩
        change _ ≤ s.potential + 0
        simp only [potential, callCost, unreadCount, sameLen] at less ⊢
        omega
      · obtain ⟨sameLen, less, owes⟩ := moved did (fun same => by cases same)
        refine ⟨congrArg (callBound · + 1) sameLen, ?_⟩
        change _ ≤ s.potential + 0
        simp only [potential, callCost, unreadCount, sameLen, Input.IsOwn, Input.adds,
          Bool.toNat_true] at less owes ⊢
        omega
  | @takes pass id skips staged value rest polled after here unread same did =>
      obtain ⟨sameLen, less, owes⟩ := moved did (fun same => by cases same)
      refine ⟨congrArg (callBound · + 1) sameLen, ?_⟩
      change _ ≤ s.potential + 0
      have pc := valid.pc
      rw [here] at pc
      have counted := unreadCount_take (a := false) pc.2.1.isRoute unread
      have paid := congrArg (2 * s.callCost * ·) counted
      dsimp only at paid
      rw [Nat.mul_add, Nat.mul_one] at paid
      have adds : (Input.answer polled).adds s.callCost ≤ s.callCost := by
        rw [same]
        split <;> exact Nat.le_refl _
      simp only [potential, callCost, unreadCount, sameLen, Input.IsOwn,
        Bool.toNat_true] at less owes paid adds ⊢
      omega
  | @lags pass id skips after here did =>
      obtain ⟨sameLen, less, owes⟩ := moved did (fun same => by cases same)
      refine ⟨congrArg (callBound · + 1) sameLen, ?_⟩
      change _ ≤ s.potential + (s.callCost + 2)
      have counted := unreadCount_same (s := s) id
        (show Route.unread { s.route id with armed := false } = _ from rfl)
      simp only [potential, callCost, unreadCount, sameLen, Input.IsOwn, Input.adds,
        Bool.toNat_true] at less owes counted ⊢
      rw [counted]
      omega
  | @parks pass id skips after here unread closed did =>
      obtain ⟨sameLen, less, owes⟩ := moved did (fun same => by cases same)
      refine ⟨congrArg (callBound · + 1) sameLen, ?_⟩
      change _ ≤ s.potential + 0
      have counted := unreadCount_same (s := s) id
        (show Route.unread { s.route id with armed := true } = _ from rfl)
      simp only [potential, callCost, unreadCount, sameLen, Input.IsOwn, Input.adds,
        Bool.toNat_true] at less owes counted ⊢
      rw [counted]
      omega
  | @defers pass id skips after here did =>
      obtain ⟨sameLen, less, owes⟩ := moved did (fun same => by cases same)
      refine ⟨congrArg (callBound · + 1) sameLen, ?_⟩
      change _ ≤ s.potential + (s.callCost + 2)
      have counted := unreadCount_same (s := s) id
        (show Route.unread { s.route id with armed := false } = _ from rfl)
      simp only [potential, callCost, unreadCount, sameLen, Input.IsOwn, Input.adds,
        Bool.toNat_true, List.map_append, List.sum_append, List.map_cons, List.map_nil,
        List.sum_cons, List.sum_nil, Wake.cost, Bool.false_eq_true, if_false]
        at less owes counted ⊢
      rw [counted]
      omega
  | @closes pass id skips after here unread did =>
      obtain ⟨sameLen, less, owes⟩ := moved did (fun same => by cases same)
      refine ⟨congrArg (callBound · + 1) sameLen, ?_⟩
      change _ ≤ s.potential + 0
      simp only [potential, callCost, unreadCount, sameLen, Input.IsOwn, Input.adds,
        Bool.toNat_true] at less owes ⊢
      omega
  | writes => exact absurd quiet (by simp [Quiet])
  | shuts => exact absurd quiet (by simp [Quiet])
  | @sets wake after inside unset did =>
      obtain ⟨sameLen, less, owes⟩ := moved did (fun same => by cases same)
      refine ⟨congrArg (callBound · + 1) sameLen, ?_⟩
      change _ ≤ s.potential + 0
      have parts := sum_map_erase (K := s.callCost) inside
      rw [Wake.cost, unset] at parts
      simp only [potential, callCost, unreadCount, sameLen, Input.IsOwn, Input.adds, List.map_cons,
        List.sum_cons, Wake.cost, Bool.toNat_false, if_true, Bool.false_eq_true,
        if_false] at less owes parts ⊢
      omega
  | @wakes wake after inside isSet did =>
      obtain ⟨sameLen, less, owes⟩ := moved did (fun same => by cases same)
      refine ⟨congrArg (callBound · + 1) sameLen, ?_⟩
      change _ ≤ s.potential + 0
      have parts := sum_map_erase (K := s.callCost) inside
      rw [Wake.cost, isSet] at parts
      simp only [potential, callCost, unreadCount, sameLen, Input.IsOwn, Input.adds,
        Bool.toNat_false, if_true] at less owes parts ⊢
      omega

structure Kept (s : Feed V) (log : List (Happened V)) : Prop where
  woken : Woken s
  final : Final s.transport s.outcome
  inOrder : s.InOrder log

theorem final_step (woken : Woken s) (final : Final s.transport s.outcome) {action : Action V}
    (stepped : Stepped s action s' events) : Final s'.transport s'.outcome := by
  cases stepped with
  | own _ did => exact final.step woken.valid did
  | takes _ _ _ did => exact final.step woken.valid did
  | lags _ did => exact final.step woken.valid did
  | parks _ _ _ did => exact final.step woken.valid did
  | defers _ did => exact final.step woken.valid did
  | closes _ _ did => exact final.step woken.valid did
  | @writes id value =>
      obtain ⟨sameTransport, sameOutcome⟩ := wakeReader_transport (s := s) id
        { s.route id with unread := (s.route id).unread ++ [value] }
      rw [sameTransport, sameOutcome]
      exact final
  | @shuts id =>
      obtain ⟨sameTransport, sameOutcome⟩ := wakeReader_transport (s := s) id
        { s.route id with closed := true }
      rw [sameTransport, sameOutcome]
      exact final
  | sets _ _ did => exact final.step woken.valid did
  | wakes _ _ did => exact final.step woken.valid did

theorem Kept.step {log : List (Happened V)} (kept : Kept s log) {action : Action V}
    (stepped : Stepped s action s' events) : Kept s' (log ++ events) :=
  ⟨kept.woken.step stepped, final_step kept.woken kept.final stepped,
    inOrder_step kept.inOrder stepped⟩

theorem woken_start (V : Type) (len : ℕ) : Woken (start V len) where
  valid := valid_start len
  registered := by
    rintro (other | other)
    · exact absurd rfl other
    · cases other
  ids wake inside := by cases inside
  armed j armed := by cases armed
  marked j isOpen := .inr (.inr (.inl isOpen))
  foreseen j _ _ := .inr (.rests rfl fun same => by cases same)

theorem kept_of_reachable {len : ℕ} {log : List (Happened V)}
    (reached : Transition.Reachable step (start V len) s log) : Kept s log := by
  apply Reaches.invariant Kept ?_ ?_ reached
  · exact ⟨woken_start V len, (fun done => by cases done), fun _ => rfl⟩
  · intro s log action after emitted _ _ stepped kept
    exact kept.step (stepped_of_step stepped)

theorem potential_replay {actions : List (Action V)} {log more : List (Happened V)} {last : Feed V}
    (kept : Kept s log) (permits : Permits step Quiet s actions)
    (replayed : replay step s actions = some (last, more)) :
    Woken last ∧ last.potential + actions.length ≤
      s.potential + (s.callCost + 2) * actions.countP Idles := by
  induction actions generalizing s log more with
  | nil =>
      obtain ⟨rfl, -⟩ := Prod.mk.inj (Option.some.inj replayed)
      exact ⟨kept.woken, Nat.le_add_right _ _⟩
  | cons action actions inductionHypothesis =>
      rw [replay] at replayed
      cases stepped : step s action with
      | none => simp [stepped] at replayed
      | some outcome =>
          simp only [stepped, Option.map_eq_some_iff, Prod.mk.injEq, Prod.exists] at replayed
          obtain ⟨_, tail, rested, rfl, rfl⟩ := replayed
          have done := stepped_of_step stepped
          obtain ⟨sameCost, less⟩ := potential_step kept.woken kept.final permits.1 done
          obtain ⟨woken, rest⟩ := inductionHypothesis (kept.step done)
            (permits.2 outcome.1 (by simp [stepped])) rested
          have spent : s.spend action + (s.callCost + 2) * actions.countP Idles =
              (s.callCost + 2) * (action :: actions).countP Idles := by
            unfold spend
            rw [List.countP_cons, Nat.mul_add, Nat.add_comm]
            split
            · rw [Nat.mul_one]
            · rw [Nat.mul_zero]
          rw [sameCost] at rest
          rw [List.length_cons]
          exact ⟨woken, by omega⟩

/-- No call runs, no wake is in progress, and the task is not polled again. -/
structure AtRest (s : Feed V) : Prop where
  idle : s.transport.pc = .idle
  waking : s.waking = []
  unrunnable : ¬ s.Runnable

theorem read_enabled {pass : Pass} {id skips : ℕ} {how : Reading} {polled : Polled}
    {after : Feed V} {happened : List (Happened V)}
    (here : s.transport.pc = .polling pass id skips)
    (found : s.reading id how = some (polled, after, happened))
    (same : after.transport = s.transport) : s.step (.read how) ≠ none := by
  unfold step
  dsimp only
  rw [here]
  dsimp only
  rw [found]
  intro blocked
  have none := Option.map_eq_none_iff.mp (Option.map_eq_none_iff.mp blocked)
  rw [same] at none
  simp only [Outbound.step, here] at none
  cases none

theorem exists_reading (id : ℕ) : ∃ how polled after happened,
    s.reading id how = some (polled, after, happened) ∧ after.transport = s.transport ∧
      ¬ Idles (V := V) (.read how) := by
  cases unread : (s.route id).unread with
  | cons value rest =>
      refine ⟨.take true, .staged, s.setRoute id { s.route id with
        unread := rest, armed := false }, [.read id value], ?_, rfl, fun idles => by cases idles⟩
      rw [reading, unread]
      rfl
  | nil =>
      cases closed : (s.route id).closed with
      | false =>
          refine ⟨.park, .pending, _, _, if_pos ?_, rfl, fun idles => by cases idles⟩
          rw [unread]
          exact ⟨rfl, closed⟩
      | true =>
          refine ⟨.close, .closed, _, _, if_pos ?_, rfl, fun idles => by cases idles⟩
          rw [unread]
          exact ⟨rfl, closed⟩

theorem Woken.atRest (woken : Woken s)
    (stuck : ∀ action, s.Quiet action → ¬ Idles action → s.step action = none) :
    s.AtRest := by
  have idle : s.transport.pc = .idle := by
    by_contra running
    rcases goes_on running with ⟨outcome, enabled⟩ | answers
    · have advances : s.move .advance = none :=
        Option.map_eq_none_iff.mp (stuck .advance trivial (fun idles => by cases idles))
      rw [move, enabled] at advances
      cases advances
    · obtain ⟨outcome, enabled⟩ := answers .pending
      cases here : s.transport.pc with
      | polling pass id skips =>
          obtain ⟨how, polled, after, happened, found, same, reads⟩ := s.exists_reading id
          exact read_enabled here found same (stuck _ trivial reads)
      | _ =>
          simp only [Outbound.step, here] at enabled
          cases enabled
  refine ⟨idle, ?_, fun runnable => ?_⟩
  · by_contra some'
    obtain ⟨wake, inside⟩ := List.exists_mem_of_ne_nil _ some'
    have blocked := stuck (.wake wake) trivial (fun idles => by cases idles)
    rw [Feed.step, if_pos inside] at blocked
    split at blocked
    · have none := Option.map_eq_none_iff.mp (Option.map_eq_none_iff.mp blocked)
      cases none
    · have none := Option.map_eq_none_iff.mp (Option.map_eq_none_iff.mp blocked)
      have enabled : wake.id < s.transport.routes.len := woken.ids wake inside
      change (if wake.id < s.transport.routes.len then _ else _) = _ at none
      rw [if_pos enabled] at none
      cases none
  · have blocked : s.move .call = none := Option.map_eq_none_iff.mp
      (stuck .call runnable (fun idles => by cases idles))
    have enabled : Outbound.step s.transport .call = some (call s.transport.routes) := if_pos idle
    rw [move, enabled] at blocked
    cases blocked

theorem Kept.read_of_atRest {log : List (Happened V)} (kept : Kept s log) (atRest : s.AtRest)
    {j : ℕ} (isOpen : s.IsOpen j) :
    log.filterMap (Happened.wroteTo j) = log.filterMap (Happened.readFrom j) := by
  have unread : (s.route j).unread = [] := by
    by_contra some'
    by_cases done : s.outcome = some .done
    · exact absurd (kept.final done).2 (kept.woken.valid.routes.openCount_ne isOpen)
    · have parked : s.Parked := by
        refine ⟨atRest.idle, ?_, ?_⟩
        · by_contra other
          exact atRest.unrunnable ⟨done, .inr other⟩
        · apply Bool.eq_false_of_not_eq_true
          exact fun notified => atRest.unrunnable ⟨done, .inl notified⟩
      obtain ⟨-, wake, inside, -⟩ := kept.woken.parked parked isOpen some'
      rw [atRest.waking] at inside
      cases inside
  rw [kept.inOrder j, unread, List.append_nil]

end Feed

structure NoLostWakeUp (V : Type) (len : ℕ) : Prop where
  parked : ∀ s log, Transition.Reachable Feed.step (Feed.start V len) s log → s.Parked →
    ∀ j, s.IsOpen j → (s.route j).unread ≠ [] →
      s.transport.routes.shared.task = true ∧ ∃ wake ∈ s.waking, wake.id = j
  inOrder : ∀ s log, Transition.Reachable Feed.step (Feed.start V len) s log → s.InOrder log
  /-- If the task is polled after every wake and every value, the feed comes to rest, within
  a number of steps that only lags and readers which wake themselves can raise. -/
  ends : ∀ s log, Transition.Reachable Feed.step (Feed.start V len) s log →
    ∀ actions, Permits Feed.step Feed.Quiet s actions → ∀ last more,
      replay Feed.step s actions = some (last, more) →
        actions.length ≤ s.potential + (s.callCost + 2) * actions.countP Feed.Idles ∧
          ((∀ action, last.Quiet action → ¬ Feed.Idles action → last.step action = none) →
            last.AtRest)
  /-- At rest every value written to an open route has been polled out. -/
  drained : ∀ s log, Transition.Reachable Feed.step (Feed.start V len) s log → s.AtRest →
    ∀ j, s.IsOpen j →
      log.filterMap (Happened.wroteTo j) = log.filterMap (Happened.readFrom j)

theorem noLostWakeUp (V : Type) (len : ℕ) : NoLostWakeUp V len where
  parked s log reached parked j isOpen unread :=
    (Feed.kept_of_reachable reached).woken.parked parked isOpen unread
  inOrder s log reached := (Feed.kept_of_reachable reached).inOrder
  ends s log reached actions permits last more replayed := by
    obtain ⟨woken, less⟩ :=
      Feed.potential_replay (Feed.kept_of_reachable reached) permits replayed
    exact ⟨by omega, woken.atRest⟩
  drained s log reached atRest j isOpen :=
    (Feed.kept_of_reachable reached).read_of_atRest atRest isOpen

/-- The task parks; then a producer writes, and has yet to set the bit. -/
def writesLate : List (Action ℕ) :=
  [.call, .advance, .advance, .read .park, .advance, .write 0 7]

theorem parked_unread : ¬ ∀ s log,
    Transition.Reachable Feed.step (Feed.start ℕ 1) s log → s.Parked →
      ∀ j, s.IsOpen j → (s.route j).unread = [] := by
  intro empty
  obtain ⟨outcome, same, held⟩ := Option.any_eq_true .. |>.mp
    (show (replay Feed.step (Feed.start ℕ 1) writesLate).any (fun outcome =>
      decide (outcome.1.transport.pc = .idle ∧ outcome.1.outcome = some .pending ∧
        outcome.1.transport.routes.shared.notified = false ∧
        Bits.test outcome.1.transport.routes.openWords 0 = true ∧
        (outcome.1.route 0).unread = [7])) = true by decide +kernel)
  obtain ⟨idle, pending, unnotified, isOpen, unread⟩ := of_decide_eq_true held
  have none :=
    empty outcome.1 outcome.2 (reachable_of_replay same) ⟨idle, pending, unnotified⟩ 0 isOpen
  rw [unread] at none
  cases none

end AimDb.Outbound
