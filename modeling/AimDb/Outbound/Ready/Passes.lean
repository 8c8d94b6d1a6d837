import AimDb.Outbound.Ready.Scan

/-!
# Passes

What one step of the transport task or of a waker does, and what every reached state
keeps: a call takes routes in the order of its pass, and polls each in one run.
-/

namespace AimDb.Outbound

inductive Stepped : Transport → Input → Transport × List Event → Prop
  | refuses {routes : ReadyRoutes} : routes.openCount = 0 →
      Stepped ⟨routes, .idle⟩ .call (⟨routes, .idle⟩, [.called, .returned .done])
  | calls {routes : ReadyRoutes} : routes.openCount ≠ 0 →
      Stepped ⟨routes, .idle⟩ .call
        (⟨{ routes with shared := routes.shared.register }, takeNext routes.len routes.pass⟩,
          [.called])
  | scans {routes : ReadyRoutes} {pass : Pass} {half : Half} {w : ℕ} :
      Stepped ⟨routes, .scanning pass half w⟩ .advance
        (⟨routes, (scan routes pass half w).1⟩, (scan routes pass half w).2)
  | clears {routes : ReadyRoutes} {pass : Pass} {id : ℕ} :
      Stepped ⟨routes, .clearing pass id⟩ .advance
        (⟨{ routes with shared := routes.shared.clear id }, .polling pass id 0⟩, [])
  | answers {routes : ReadyRoutes} {pass : Pass} {id skips : ℕ} {polled : Polled} :
      Stepped ⟨routes, .polling pass id skips⟩ (.answer polled)
        (report routes pass id skips polled, [.polled id polled])
  | serves {routes : ReadyRoutes} {id : ℕ} :
      Stepped ⟨routes, .serving id⟩ .advance
        (⟨routes.served id, .idle⟩, [.returned (.ready id)])
  | rewakes {routes : ReadyRoutes} {pass : Pass} {id : ℕ} :
      Stepped ⟨routes, .rewaking pass id⟩ .advance
        (⟨{ routes with shared := routes.shared.set id }, .notifying pass⟩, [])
  | notifies {routes : ReadyRoutes} {pass : Pass} :
      Stepped ⟨routes, .notifying pass⟩ .advance
        (⟨{ routes with shared := routes.shared.wake }, takeNext routes.len pass⟩, [])
  | finishes {routes : ReadyRoutes} :
      Stepped ⟨routes, .finishing⟩ .advance
        (⟨routes, .idle⟩, [.returned (if routes.openCount = 0 then .done else .pending)])
  | sets {routes : ReadyRoutes} {pc : Pc} {id : ℕ} : id < routes.len →
      Stepped ⟨routes, pc⟩ (.set id)
        (⟨{ routes with shared := routes.shared.set id }, pc⟩, [])
  | wakes {routes : ReadyRoutes} {pc : Pc} :
      Stepped ⟨routes, pc⟩ .wake (⟨{ routes with shared := routes.shared.wake }, pc⟩, [])

theorem stepped_of_step {s : Transport} {input : Input} {outcome : Transport × List Event}
    (stepped : step s input = some outcome) : Stepped s input outcome := by
  obtain ⟨routes, pc⟩ := s
  cases input with
  | call =>
      obtain ⟨rfl, same⟩ := Option.ite_none_right_eq_some.mp stepped
      obtain rfl := Option.some.inj same
      unfold call
      split
      · rename_i closed
        exact .refuses closed
      · rename_i some'
        exact .calls some'
  | advance =>
      cases pc with
      | idle => cases stepped
      | polling => cases stepped
      | scanning =>
          obtain rfl := Option.some.inj stepped
          exact .scans
      | clearing =>
          obtain rfl := Option.some.inj stepped
          exact .clears
      | serving =>
          obtain rfl := Option.some.inj stepped
          exact .serves
      | rewaking =>
          obtain rfl := Option.some.inj stepped
          exact .rewakes
      | notifying =>
          obtain rfl := Option.some.inj stepped
          exact .notifies
      | finishing =>
          obtain rfl := Option.some.inj stepped
          exact .finishes
  | answer polled =>
      cases pc with
      | polling =>
          obtain rfl := Option.some.inj stepped
          exact .answers
      | _ => cases stepped
  | set id =>
      obtain ⟨isRoute, same⟩ := Option.ite_none_right_eq_some.mp stepped
      obtain rfl := Option.some.inj same
      exact .sets isRoute
  | wake =>
      obtain rfl := Option.some.inj stepped
      exact .wakes

section

variable {routes after : ReadyRoutes} {pass : Pass} {id : ℕ}

theorem Pass.Valid.congr (valid : pass.Valid routes) (len : after.len = routes.len)
    (cursor : after.cursor = routes.cursor) : pass.Valid after :=
  ⟨by rw [len, cursor]; exact valid.start, len ▸ valid.positive, valid.begun,
    len ▸ valid.inside⟩

theorem Pass.Took.congr (took : pass.Took routes id) (len : after.len = routes.len)
    (words : after.openWords = routes.openWords) : pass.Took after id :=
  ⟨len ▸ took.isRoute, by rw [ReadyRoutes.IsOpen, words]; exact took.isOpen,
    len ▸ took.next⟩

theorem Pc.Valid.congr {pc : Pc} (valid : pc.Valid routes) (len : after.len = routes.len)
    (cursor : after.cursor = routes.cursor) (words : after.openWords = routes.openWords) :
    pc.Valid after := by
  cases pc with
  | idle => trivial
  | scanning => exact ⟨valid.1.congr len cursor, len ▸ valid.2⟩
  | clearing => exact ⟨valid.1.congr len cursor, valid.2.congr len words⟩
  | polling => exact ⟨valid.1.congr len cursor, valid.2.1.congr len words, valid.2.2⟩
  | serving => exact ⟨len ▸ valid.1, by rw [ReadyRoutes.IsOpen, words]; exact valid.2⟩
  | rewaking => exact ⟨valid.1.congr len cursor, valid.2.congr len words⟩
  | notifying => exact Pass.Valid.congr valid len cursor
  | finishing => trivial

theorem ReadyRoutes.Valid.shared {shared : Shared} (valid : routes.Valid)
    (length : shared.ready.length = routes.shared.ready.length) :
    ReadyRoutes.Valid { routes with shared := shared } :=
  ⟨length.symm ▸ valid.ready, valid.words, valid.isRoute, valid.cursor, valid.count⟩

theorem ReadyRoutes.Valid.close (valid : routes.Valid) (isRoute : id < routes.len) :
    (routes.close id).Valid where
  ready := by
    rw [ReadyRoutes.close_len, ReadyRoutes.close_shared]
    exact valid.ready
  words := by
    rw [ReadyRoutes.close_len]
    unfold ReadyRoutes.close
    split
    · rw [List.length_modify]
      exact valid.words
    · exact valid.words
  isRoute j isOpen := by
    rw [ReadyRoutes.close_len]
    exact valid.isRoute j ((ReadyRoutes.isOpen_close valid isRoute).mp isOpen).2
  cursor := by
    rw [ReadyRoutes.close_len, ReadyRoutes.close_cursor]
    exact valid.cursor
  count := by
    by_cases isOpen : routes.IsOpen id
    · have others := fun j => ReadyRoutes.isOpen_close (j := j) valid isRoute
      simp only [ReadyRoutes.IsOpen] at others
      have left : (routes.close id).openCount = routes.openCount - 1 := by
        rw [ReadyRoutes.close_of_open isOpen]
      have counted : id ∈ (Finset.range routes.len).filter
          fun id => Bits.test routes.openWords id = true :=
        Finset.mem_filter.mpr ⟨Finset.mem_range.mpr isRoute, isOpen⟩
      rw [left, valid.count, ← Finset.card_erase_of_mem counted, ReadyRoutes.close_len]
      congr 1
      ext j
      rw [Finset.mem_erase, Finset.mem_filter, Finset.mem_filter, others]
      exact and_left_comm
    · rw [ReadyRoutes.close_of_closed isOpen]
      exact valid.count

theorem ReadyRoutes.Valid.positive (valid : routes.Valid) (some' : routes.openCount ≠ 0) :
    0 < routes.len := by
  by_contra none
  apply some'
  rw [valid.count, Nat.eq_zero_of_not_pos none]
  rfl

theorem ReadyRoutes.Valid.openCount_ne (valid : routes.Valid) {j : ℕ} (isOpen : routes.IsOpen j) :
    routes.openCount ≠ 0 := by
  intro none
  have counted : j ∈ (Finset.range routes.len).filter
      fun id => Bits.test routes.openWords id = true :=
    Finset.mem_filter.mpr ⟨Finset.mem_range.mpr (valid.isRoute j isOpen), isOpen⟩
  rw [valid.count, Finset.card_eq_zero] at none
  rw [none] at counted
  exact Finset.notMem_empty j counted

theorem pass_valid (positive : 0 < routes.len) :
    routes.pass.Valid routes := by
  have start : routes.pass.start = (routes.cursor + 1) % routes.len := if_neg (by omega)
  exact ⟨start, positive, Nat.le_refl _, Nat.le_add_right _ _⟩

theorem took_valid (valid : pass.Valid routes) {later : Pass}
    (same : later.start = pass.start) (took : later.Took routes id) : later.Valid routes := by
  have bounds := position_bounds took.isRoute valid.started
  refine ⟨same.trans valid.start, valid.positive, ?_, ?_⟩
  · rw [took.next, same]
    omega
  · rw [took.next, same]
    omega

theorem new_valid (len : ℕ) : (ReadyRoutes.new len).Valid := by
  have inside : ∀ id ∈ List.range len,
      id / 32 < (List.replicate ((len + 31) / 32) 0#32).length := by
    intro id isRoute
    have := List.mem_range.mp isRoute
    rw [List.length_replicate]
    omega
  have length : (ReadyRoutes.new len).openWords.length = (len + 31) / 32 :=
    (Bits.length_foldl_insert (List.range len)).trans List.length_replicate
  have isOpen : ∀ id, (ReadyRoutes.new len).IsOpen id ↔ id < len := by
    intro id
    have same := Bits.test_foldl_insert (j := id) (by omega) inside
    rw [Bits.test_replicate_zero, Bool.or_false] at same
    rw [ReadyRoutes.IsOpen, ← List.mem_range,
      ← decide_eq_true_iff (p := id ∈ List.range len), ← same]
    rfl
  have enough : len ≤ (ReadyRoutes.new len).openWords.length * 32 := by
    rw [length]
    omega
  refine ⟨enough, enough, fun id => (isOpen id).mp, ?_, ?_⟩
  · intro positive
    change len - 1 < len
    have : 0 < len := positive
    omega
  · simp only [ReadyRoutes.IsOpen] at isOpen
    have all : (Finset.range len).filter (fun id => id < len) = Finset.range len :=
      Finset.filter_true_of_mem fun id => Finset.mem_range.mp
    change len = ((Finset.range len).filter _).card
    simp only [isOpen, all, Finset.card_range]

theorem valid_start (len : ℕ) : (start len).Valid := ⟨new_valid len, trivial⟩

theorem Transport.Valid.step {s : Transport} {input : Input} {outcome : Transport × List Event}
    (valid : s.Valid) (stepped : Stepped s input outcome) : outcome.1.Valid := by
  obtain ⟨routesValid, pcValid⟩ := valid
  cases stepped with
  | refuses => exact ⟨routesValid, trivial⟩
  | calls some' =>
      have positive := routesValid.positive some'
      exact ⟨routesValid.shared rfl, takeNext_valid ((pass_valid positive).congr rfl rfl)⟩
  | scans =>
      refine ⟨routesValid, ?_⟩
      have outcome := scanned routesValid pcValid.1 pcValid.2
      generalize scan _ _ _ _ = after at outcome ⊢
      cases outcome with
      | takes same took => exact ⟨took_valid pcValid.1 same took, took⟩
      | goes _ goesValid => exact goesValid
  | clears =>
      refine ⟨routesValid.shared (List.length_modify ..), ?_⟩
      exact ⟨pcValid.1.congr rfl rfl, pcValid.2.congr rfl rfl, by decide⟩
  | @answers routes pass id skips polled =>
      cases polled with
      | pending => exact ⟨routesValid, takeNext_valid pcValid.1⟩
      | staged => exact ⟨routesValid, pcValid.2.1.isRoute, pcValid.2.1.isOpen⟩
      | skipped =>
          have budget : skips < skipBudget := pcValid.2.2
          change Transport.Valid (if skips + 1 = skipBudget then _ else _)
          split
          · exact ⟨routesValid, pcValid.1, pcValid.2.1⟩
          · exact ⟨routesValid, pcValid.1, pcValid.2.1, by omega⟩
      | closed =>
          have taken := takeNext_valid (pcValid.1.congr ReadyRoutes.close_len
            (@ReadyRoutes.close_cursor _ id))
          rw [ReadyRoutes.close_len] at taken
          exact ⟨routesValid.close pcValid.2.1.isRoute, taken⟩
  | serves =>
      refine ⟨⟨?_, routesValid.words, routesValid.isRoute, fun _ => pcValid.1,
        routesValid.count⟩, trivial⟩
      exact (List.length_modify ..).symm ▸ routesValid.ready
  | rewakes =>
      exact ⟨routesValid.shared (List.length_modify ..), pcValid.1.congr rfl rfl⟩
  | notifies =>
      exact ⟨routesValid.shared rfl, takeNext_valid (Pass.Valid.congr pcValid rfl rfl)⟩
  | finishes => exact ⟨routesValid, trivial⟩
  | sets => exact ⟨routesValid.shared (List.length_modify ..), pcValid.congr rfl rfl rfl⟩
  | wakes => exact ⟨routesValid.shared rfl, pcValid.congr rfl rfl rfl⟩

end

end AimDb.Outbound
