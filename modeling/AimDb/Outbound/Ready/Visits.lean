import AimDb.Outbound.Ready.Passes

/-!
# The visits of a call

A call takes its routes one after the other, in the order of the pass, and is done with a
route before it takes the next one.
-/

namespace AimDb.Outbound

def Event.takes : Event → Option ℕ
  | .taken id => some id
  | _ => none

def Event.polls : Event → Option ℕ
  | .polled id _ => some id
  | _ => none

def Pc.pass : Pc → Option Pass
  | .scanning pass _ _ => some pass
  | .clearing pass _ => some pass
  | .polling pass _ _ => some pass
  | .rewaking pass _ => some pass
  | .notifying pass => some pass
  | _ => none

def Pc.visit : Pc → Option (ℕ × ℕ)
  | .clearing _ id => some (id, 0)
  | .polling _ id skips => some (id, skips)
  | _ => none

theorem takeNext_pass {len : ℕ} {pass other : Pass}
    (same : (takeNext len pass).pass = some other) :
    other = pass := by
  unfold takeNext takeLower at same
  dsimp only at same
  split at same
  · exact (Option.some.inj same).symm
  · split at same
    · exact (Option.some.inj same).symm
    · cases same

@[simp] theorem takeNext_visit (len : ℕ) (pass : Pass) : (takeNext len pass).visit = none := by
  unfold takeNext takeLower
  dsimp only
  split
  · rfl
  · split <;> rfl

/-- The routes of a log were taken in the order of the pass, and each was polled in one run
within its budget. -/
structure Visits (len start : ℕ) (log : List Event) (visits : List (ℕ × ℕ)) : Prop where
  takes : log.filterMap Event.takes = visits.map Prod.fst
  polls : log.filterMap Event.polls = visits.flatMap fun visit => List.replicate visit.2 visit.1
  ordered : (visits.map fun visit => position len start visit.1).Pairwise (· < ·)
  budget : ∀ visit ∈ visits, visit.1 < len ∧ visit.2 ≤ skipBudget

section

variable {len start : ℕ} {log events : List Event} {visits : List (ℕ × ℕ)}

theorem Visits.nil : Visits len start [] [] :=
  ⟨rfl, rfl, List.Pairwise.nil, fun _ visit => by cases visit⟩

theorem Visits.idle (so : Visits len start log visits) (takes : events.filterMap Event.takes = [])
    (polls : events.filterMap Event.polls = []) : Visits len start (log ++ events) visits := by
  refine ⟨?_, ?_, so.ordered, so.budget⟩
  · rw [List.filterMap_append, takes, List.append_nil, so.takes]
  · rw [List.filterMap_append, polls, List.append_nil, so.polls]

theorem Visits.take (so : Visits len start log visits) {id : ℕ} (isRoute : id < len)
    (later : ∀ visit ∈ visits, position len start visit.1 < position len start id) :
    Visits len start (log ++ [.taken id]) (visits ++ [(id, 0)]) := by
  constructor
  · rw [List.filterMap_append, so.takes, List.map_append]
    rfl
  · rw [List.filterMap_append, so.polls, List.flatMap_append]
    rfl
  · rw [List.map_append, List.pairwise_append]
    refine ⟨so.ordered, List.pairwise_singleton _ _, ?_⟩
    intro p isOne q isLast
    obtain ⟨visit, inside, rfl⟩ := List.mem_map.mp isOne
    obtain rfl := List.mem_singleton.mp isLast
    exact later visit inside
  · intro visit inside
    rcases List.mem_append.mp inside with inside | isLast
    · exact so.budget visit inside
    · obtain rfl := List.mem_singleton.mp isLast
      exact ⟨isRoute, Nat.zero_le _⟩

theorem Visits.poll {earlier : List (ℕ × ℕ)} {id n : ℕ}
    (so : Visits len start log (earlier ++ [(id, n)])) (within : n < skipBudget) (answer : Polled) :
    Visits len start (log ++ [.polled id answer]) (earlier ++ [(id, n + 1)]) := by
  constructor
  · rw [List.filterMap_append, so.takes, List.map_append, List.map_append]
    exact List.append_nil _
  · rw [List.filterMap_append, so.polls, List.flatMap_append, List.flatMap_append,
      List.append_assoc]
    simp only [List.flatMap_singleton, List.replicate_succ']
    rfl
  · have ordered := so.ordered
    rw [List.map_append] at ordered ⊢
    exact ordered
  · intro visit inside
    rcases List.mem_append.mp inside with inside | isLast
    · exact so.budget visit (List.mem_append_left _ inside)
    · obtain rfl := List.mem_singleton.mp isLast
      exact ⟨(so.budget (id, n) (List.mem_append_right _ List.mem_cons_self)).1, within⟩

end

/-- The visits of a call so far; those made are behind the pass, the last one may go on. -/
structure Visiting (len start : ℕ) (s : Transport) (log : List Event)
    (visits : List (ℕ × ℕ)) :
    Prop where
  sameLen : s.routes.len = len
  made : Visits len start log visits
  begun : ∀ pass, s.pc.pass = some pass → pass.start = start
  behind : ∀ pass, s.pc.pass = some pass →
    ∀ visit ∈ visits, position len start visit.1 < pass.next
  current : ∀ visit, s.pc.visit = some visit → ∃ earlier, visits = earlier ++ [visit]

theorem report_len (routes : ReadyRoutes) (pass : Pass) (id skips : ℕ) (polled : Polled) :
    (report routes pass id skips polled).routes.len = routes.len := by
  cases polled with
  | pending => rfl
  | staged => rfl
  | skipped =>
      unfold report
      dsimp only
      split <;> rfl
  | closed => exact ReadyRoutes.close_len

theorem report_pass {routes : ReadyRoutes} {pass other : Pass} {id skips : ℕ} {polled : Polled}
    (same : (report routes pass id skips polled).pc.pass = some other) : other = pass := by
  cases polled with
  | pending => exact takeNext_pass same
  | staged => cases same
  | skipped =>
      unfold report at same
      dsimp only at same
      split at same <;> exact (Option.some.inj same).symm
  | closed => exact takeNext_pass same

theorem report_visit {routes : ReadyRoutes} {pass : Pass} {id skips : ℕ} {polled : Polled}
    {visit : ℕ × ℕ} (same : (report routes pass id skips polled).pc.visit = some visit) :
    visit = (id, skips + 1) := by
  cases polled with
  | pending =>
      rw [report, takeNext_visit] at same
      cases same
  | staged => cases same
  | skipped =>
      unfold report at same
      dsimp only at same
      split at same
      · cases same
      · exact (Option.some.inj same).symm
  | closed =>
      rw [report, takeNext_visit] at same
      cases same

theorem Visiting.idle {len start : ℕ} {s s' : Transport} {log events : List Event}
    {visits : List (ℕ × ℕ)} (so : Visiting len start s log visits)
    (sameLen : s'.routes.len = s.routes.len)
    (pass : ∀ pass, s'.pc.pass = some pass → s.pc.pass = some pass)
    (visit : ∀ visit, s'.pc.visit = some visit → s.pc.visit = some visit)
    (takes : events.filterMap Event.takes = []) (polls : events.filterMap Event.polls = []) :
    Visiting len start s' (log ++ events) visits :=
  ⟨sameLen.trans so.sameLen, so.made.idle takes polls, fun p same => so.begun p (pass p same),
    fun p same => so.behind p (pass p same), fun v same => so.current v (visit v same)⟩

theorem Visiting.step {len start : ℕ} {s : Transport} {input : Input}
    {outcome : Transport × List Event} {log : List Event} {visits : List (ℕ × ℕ)}
    (valid : s.Valid) (so : Visiting len start s log visits) (stepped : Stepped s input outcome)
    (goesOn : input ≠ .call) :
    ∃ visits, Visiting len start outcome.1 (log ++ outcome.2) visits := by
  cases stepped with
  | refuses => exact absurd rfl goesOn
  | calls => exact absurd rfl goesOn
  | @scans routes pass half w =>
      have outcome := scanned valid.routes valid.pc.1 valid.pc.2
      obtain ⟨sameLen, visits, start', behind, -⟩ := so
      obtain rfl : routes.len = len := sameLen
      obtain rfl : pass.start = start := start' pass rfl
      generalize scan _ _ _ _ = after at outcome ⊢
      cases outcome with
      | takes same took due after =>
          have later := fun v inside => Nat.lt_of_lt_of_le (behind pass rfl v inside) after
          refine ⟨_, rfl, visits.take took.isRoute later, ?_, ?_, ?_⟩
          · rintro _ ⟨⟩
            exact same
          · rintro _ ⟨⟩ visit inside
            rw [took.next, same]
            rcases List.mem_append.mp inside with inside | isLast
            · exact Nat.lt_succ_of_lt (later visit inside)
            · obtain rfl := List.mem_singleton.mp isLast
              exact Nat.lt_succ_self _
          · rintro _ ⟨⟩
            exact ⟨_, rfl⟩
      | goes on =>
          refine ⟨_, Visiting.idle ⟨rfl, visits, start', behind, ?_⟩ rfl ?_ ?_ rfl rfl⟩
          · intro visit same
            cases same
          · rcases on with rfl | ⟨half, w, rfl, -⟩
            · exact fun _ same => by cases same
            · exact fun _ same => same
          · rcases on with rfl | ⟨half, w, rfl, -⟩ <;> exact fun _ same => by cases same
  | clears => exact ⟨_, so.idle rfl (fun _ same => same) (fun _ same => same) rfl rfl⟩
  | @answers routes pass id skips polled =>
      obtain ⟨sameLen, visits, start', behind, current⟩ := so
      obtain ⟨earlier, rfl⟩ := current _ rfl
      have polls := visits.poll valid.pc.2.2 polled
      have behind' : ∀ visit ∈ earlier ++ [(id, skips + 1)],
          position len start visit.1 < pass.next := by
        intro visit inside
        rcases List.mem_append.mp inside with inside | isLast
        · exact behind pass rfl visit (List.mem_append_left _ inside)
        · obtain rfl := List.mem_singleton.mp isLast
          exact behind pass rfl (id, skips) (List.mem_append_right _ List.mem_cons_self)
      refine ⟨_, (report_len ..).trans sameLen, polls, ?_, ?_, ?_⟩
      · intro other same
        exact report_pass same ▸ start' pass rfl
      · intro other same
        exact report_pass same ▸ behind'
      · intro visit same
        exact ⟨earlier, report_visit same ▸ rfl⟩
  | serves =>
      exact ⟨_, so.idle rfl (fun _ same => by cases same) (fun _ same => by cases same) rfl rfl⟩
  | rewakes =>
      exact ⟨_, so.idle rfl (fun _ same => same) (fun _ same => by cases same) rfl rfl⟩
  | notifies =>
      refine ⟨_, so.idle rfl ?_ ?_ rfl rfl⟩
      · intro other same
        rw [takeNext_pass same]
        rfl
      · intro visit same
        rw [takeNext_visit] at same
        cases same
  | finishes =>
      exact ⟨_, so.idle rfl (fun _ same => by cases same) (fun _ same => by cases same) rfl rfl⟩
  | sets => exact ⟨_, so.idle rfl (fun _ same => same) (fun _ same => same) rfl rfl⟩
  | wakes => exact ⟨_, so.idle rfl (fun _ same => same) (fun _ same => same) rfl rfl⟩

/-- What one visit and the scan to the next route may take. -/
def visitBound (len : ℕ) : ℕ := 2 * len + skipBudget + 9

def Pass.left (len : ℕ) (pass : Pass) : ℕ := (pass.start + len - pass.next) * visitBound len

/-- The accesses a call may still make. -/
def rank (len : ℕ) : Pc → ℕ
  | .idle => 0
  | .scanning pass half w => pass.left len + scanRank len half w + 2
  | .clearing pass _ => pass.left len + 2 * len + skipBudget + 8
  | .polling pass _ skips => pass.left len + 2 * len + (skipBudget - skips) + 7
  | .serving _ => 1
  | .rewaking pass _ => pass.left len + 2 * len + 7
  | .notifying pass => pass.left len + 2 * len + 6
  | .finishing => 1

def Input.IsOwn : Input → Bool
  | .advance => true
  | .answer _ => true
  | _ => false

section

variable {len : ℕ} {routes : ReadyRoutes} {pass : Pass}

theorem rank_takeLower (len : ℕ) (pass : Pass) :
    rank len (takeLower len pass) ≤ pass.left len + 2 * len + 5 := by
  unfold takeLower
  dsimp only
  split
  · simp only [rank, scanRank]
    omega
  · simp only [rank]
    omega

theorem rank_takeNext (len : ℕ) (pass : Pass) :
    rank len (takeNext len pass) ≤ pass.left len + 2 * len + 5 := by
  unfold takeNext
  split
  · simp only [rank, scanRank]
    omega
  · exact rank_takeLower len pass

theorem left_of_took (valid : pass.Valid routes) {after : Pass} {id : ℕ}
    (same : after.start = pass.start) (took : after.Took routes id)
    (later : pass.next ≤ position routes.len pass.start id) :
    after.left routes.len + visitBound routes.len ≤ pass.left routes.len := by
  have bounds := position_bounds took.isRoute valid.started
  have next : after.next = position routes.len pass.start id + 1 := same ▸ took.next
  rw [Pass.left, Pass.left, same, next, ← Nat.succ_mul]
  apply Nat.mul_le_mul_right
  omega

theorem rank_report (id : ℕ) {skips : ℕ} (within : skips < skipBudget)
    (polled : Polled) :
    rank routes.len (report routes pass id skips polled).pc + 1 ≤
      rank routes.len (.polling pass id skips) := by
  have next := rank_takeNext routes.len pass
  cases polled with
  | pending =>
      simp only [report, rank] at next ⊢
      omega
  | staged =>
      simp only [report, rank]
      omega
  | skipped =>
      unfold report
      dsimp only
      split
      · simp only [rank]
        omega
      · simp only [rank]
        omega
  | closed =>
      simp only [report, rank] at next ⊢
      omega

end

theorem rank_step {s : Transport} {input : Input} {outcome : Transport × List Event}
    (valid : s.Valid) (stepped : Stepped s input outcome) (goesOn : input ≠ .call) :
    outcome.1.routes.len = s.routes.len ∧
      rank s.routes.len outcome.1.pc + input.IsOwn.toNat ≤ rank s.routes.len s.pc := by
  cases stepped with
  | refuses => exact absurd rfl goesOn
  | calls => exact absurd rfl goesOn
  | @scans routes pass half w =>
      refine ⟨rfl, ?_⟩
      have outcome := scanned valid.routes valid.pc.1 valid.pc.2
      generalize scan _ _ _ _ = after at outcome ⊢
      cases outcome with
      | takes same took due later =>
          have less := left_of_took valid.pc.1 same took later
          simp only [rank, Input.IsOwn, Bool.toNat_true, visitBound] at less ⊢
          omega
      | goes on =>
          rcases on with rfl | ⟨half', w', rfl, less⟩
          · simp only [rank, Input.IsOwn, Bool.toNat_true]
            omega
          · have loads : scanRank routes.len half' w' < scanRank routes.len half w := less
            simp only [rank, Input.IsOwn, Bool.toNat_true]
            omega
  | clears =>
      refine ⟨rfl, ?_⟩
      simp only [rank, Input.IsOwn, Bool.toNat_true]
      omega
  | answers => exact ⟨report_len .., rank_report _ valid.pc.2.2 _⟩
  | serves => exact ⟨rfl, Nat.le_refl _⟩
  | rewakes =>
      refine ⟨rfl, ?_⟩
      simp only [rank, Input.IsOwn, Bool.toNat_true]
      omega
  | notifies =>
      refine ⟨rfl, ?_⟩
      have next := rank_takeNext
      simp only [rank, Input.IsOwn, Bool.toNat_true]
      exact Nat.succ_le_succ (next _ _)
  | finishes => exact ⟨rfl, Nat.le_refl _⟩
  | sets => exact ⟨rfl, Nat.le_refl _⟩
  | wakes => exact ⟨rfl, Nat.le_refl _⟩

def callBound (len : ℕ) : ℕ := len * visitBound len + 2 * len + 5

theorem rank_call (routes : ReadyRoutes) :
    rank routes.len (call routes).1.pc ≤ callBound routes.len := by
  unfold call callBound
  split
  · exact Nat.zero_le _
  · have next := rank_takeNext routes.len routes.pass
    have whole : routes.pass.left routes.len = routes.len * visitBound routes.len := by
      rw [Pass.left, ReadyRoutes.pass]
      dsimp only
      rw [Nat.add_sub_cancel_left]
    rw [whole] at next
    exact next

/-- A call that has not returned can go on, whatever its reader reports. -/
theorem goes_on {s : Transport} (running : s.pc ≠ .idle) :
    (∃ outcome, step s .advance = some outcome) ∨
      ∀ polled, ∃ outcome, step s (.answer polled) = some outcome := by
  obtain ⟨routes, pc⟩ := s
  cases pc with
  | idle => exact absurd rfl running
  | polling => exact .inr fun _ => ⟨_, rfl⟩
  | _ => exact .inl ⟨_, rfl⟩

end AimDb.Outbound
