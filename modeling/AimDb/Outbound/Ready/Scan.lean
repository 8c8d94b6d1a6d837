import AimDb.Outbound.Ready
import Mathlib.Data.Finset.Card

/-!
# What a pass passes over

The words of a pass are loaded one after the other, each behind masks. No open route
whose bit is set stays behind the scan.
-/

namespace AimDb.Outbound

namespace ReadyRoutes

variable (routes : ReadyRoutes) (id j : ℕ)

def IsReady : Prop := Bits.test routes.shared.ready id = true

def IsOpen : Prop := Bits.test routes.openWords id = true

structure Valid : Prop where
  ready : routes.len ≤ routes.shared.ready.length * 32
  words : routes.len ≤ routes.openWords.length * 32
  isRoute : ∀ id, routes.IsOpen id → id < routes.len
  cursor : 0 < routes.len → routes.cursor < routes.len
  count : routes.openCount =
    ((Finset.range routes.len).filter fun id => Bits.test routes.openWords id = true).card

variable {routes id j}

theorem isReady_set (valid : routes.Valid) (isRoute : id < routes.len) :
    IsReady { routes with shared := routes.shared.set id } j ↔ j = id ∨ routes.IsReady j := by
  have inside : id / 32 < routes.shared.ready.length := by
    have := valid.ready
    omega
  have same := Bits.test_insert (j := j) (by omega) inside
  rw [IsReady, IsReady]
  change Bits.test (Bits.insert routes.shared.ready id) j = true ↔ _
  rw [same, Bool.or_eq_true, decide_eq_true_iff]

theorem isReady_clear (valid : routes.Valid) (isRoute : id < routes.len) :
    IsReady { routes with shared := routes.shared.clear id } j ↔
        j ≠ id ∧ routes.IsReady j := by
  have inside : id / 32 < routes.shared.ready.length := by
    have := valid.ready
    omega
  have same := Bits.test_erase (j := j) (by omega) inside
  rw [IsReady, IsReady]
  change Bits.test (Bits.erase routes.shared.ready id) j = true ↔ _
  rw [same, Bool.and_eq_true, Bool.not_eq_true', decide_eq_false_iff_not]

theorem and_bit_ne_zero :
    routes.openWords.getD (id / 32) 0#32 &&& bit id ≠ 0#32 ↔ routes.IsOpen id := by
  have single := fun k => Bits.getLsbD_bit (w := 32) id k
  simp only [show Bits.bit id = bit id from rfl] at single
  constructor
  · intro some'
    by_contra closed
    apply some'
    apply BitVec.eq_of_getLsbD_eq
    intro k inside
    rw [BitVec.getLsbD_and, single, BitVec.getLsbD_zero]
    by_cases here : k = id % 32
    · rw [here, Bool.and_eq_false_iff]
      exact .inl (Bool.eq_false_of_not_eq_true closed)
    · simp [here]
  · intro isOpen zero
    have both := congrArg (fun bits => bits.getLsbD (id % 32)) zero
    have here : (bit id).getLsbD (id % 32) = true := by
      rw [single, decide_eq_true_iff]
      exact ⟨Nat.mod_lt _ (by omega), rfl⟩
    rw [BitVec.getLsbD_and, here, Bool.and_true, BitVec.getLsbD_zero] at both
    exact Bool.false_ne_true (both.symm.trans isOpen)

theorem close_of_closed (closed : ¬ routes.IsOpen id) : routes.close id = routes :=
  if_neg fun some' => closed (and_bit_ne_zero.mp some')

theorem close_of_open (isOpen : routes.IsOpen id) :
    routes.close id =
      { routes with
        openWords := routes.openWords.modify (id / 32) (· &&& ~~~bit id)
        openCount := routes.openCount - 1 } :=
  if_pos (and_bit_ne_zero.mpr isOpen)

theorem isOpen_close (valid : routes.Valid) (isRoute : id < routes.len) :
    (routes.close id).IsOpen j ↔ j ≠ id ∧ routes.IsOpen j := by
  have inside : id / 32 < routes.openWords.length := by
    have := valid.words
    omega
  have same := Bits.test_erase (j := j) (by omega) inside
  by_cases isOpen : routes.IsOpen id
  · rw [close_of_open isOpen, IsOpen, IsOpen]
    change Bits.test (Bits.erase routes.openWords id) j = true ↔ _
    rw [same, Bool.and_eq_true, Bool.not_eq_true', decide_eq_false_iff_not]
  · rw [close_of_closed isOpen]
    refine ⟨fun open' => ⟨?_, open'⟩, And.right⟩
    rintro rfl
    exact isOpen open'

@[simp] theorem close_shared : (routes.close id).shared = routes.shared := by
  unfold close
  split <;> rfl

@[simp] theorem close_len : (routes.close id).len = routes.len := by
  unfold close
  split <;> rfl

@[simp] theorem close_cursor : (routes.close id).cursor = routes.cursor := by
  unfold close
  split <;> rfl

variable {lo hi w : ℕ}

theorem getLsbD_wordBits (nonempty : lo < hi) (first : lo / 32 ≤ w) (last : w ≤ (hi - 1) / 32)
    {i : ℕ} (inside : i < 32) :
    (routes.wordBits lo hi w).getLsbD i = true ↔
      (routes.IsReady (w * 32 + i) ∧ routes.IsOpen (w * 32 + i)) ∧
        lo ≤ w * 32 + i ∧ w * 32 + i < hi := by
  rw [IsReady, IsOpen, Bits.test_of_word inside, Bits.test_of_word inside]
  have low : (if w = lo / 32 then
      (routes.shared.ready.getD w 0#32 &&& routes.openWords.getD w 0#32) &&&
        (BitVec.allOnes 32 <<< (lo % 32))
      else routes.shared.ready.getD w 0#32 &&& routes.openWords.getD w 0#32).getLsbD i = true ↔
      ((routes.shared.ready.getD w 0#32).getLsbD i = true ∧
        (routes.openWords.getD w 0#32).getLsbD i = true) ∧ lo ≤ w * 32 + i := by
    split
    · have mask := @Bits.getLsbD_above 32 (lo % 32) i inside
      rw [Bits.above] at mask
      rw [BitVec.getLsbD_and, BitVec.getLsbD_and, mask, Bool.and_eq_true, Bool.and_eq_true,
        decide_eq_true_iff]
      exact and_congr_right fun _ => by omega
    · rw [BitVec.getLsbD_and, Bool.and_eq_true]
      exact ⟨fun held => ⟨held, by omega⟩, And.left⟩
  rw [wordBits]
  split
  · rename_i narrow
    have mask := Bits.getLsbD_below (i := i) narrow.2
    rw [Bits.below] at mask
    rw [BitVec.getLsbD_and, Bool.and_eq_true, low, mask, decide_eq_true_iff, and_assoc]
    exact and_congr_right fun _ => and_congr_right fun _ => by omega
  · rw [low]
    constructor
    · rintro ⟨held, above⟩
      exact ⟨held, above, by omega⟩
    · rintro ⟨held, above, -⟩
      exact ⟨held, above⟩

theorem wordBits_eq_zero (nonempty : lo < hi) (first : lo / 32 ≤ w) (last : w ≤ (hi - 1) / 32)
    (zero : routes.wordBits lo hi w = 0#32) (word : j / 32 = w) (above : lo ≤ j)
    (under : j < hi) :
    ¬ (routes.IsReady j ∧ routes.IsOpen j) := by
  intro held
  have place : w * 32 + j % 32 = j := by omega
  have isSet : (routes.wordBits lo hi w).getLsbD (j % 32) = true ↔ _ :=
    getLsbD_wordBits nonempty first last (Nat.mod_lt j (show 0 < 32 by omega))
  rw [place, zero, BitVec.getLsbD_zero] at isSet
  exact absurd (isSet.mpr ⟨held, above, under⟩) Bool.false_ne_true

theorem wordBits_ctz (nonempty : lo < hi) (first : lo / 32 ≤ w) (last : w ≤ (hi - 1) / 32)
    (some' : routes.wordBits lo hi w ≠ 0#32) :
    let id := w * 32 + (routes.wordBits lo hi w).ctz.toNat
    (routes.IsReady id ∧ routes.IsOpen id) ∧ lo ≤ id ∧ id < hi ∧
      ∀ j, j / 32 = w → lo ≤ j → j < id → ¬ (routes.IsReady j ∧ routes.IsOpen j) := by
  have inside : (routes.wordBits lo hi w).ctz.toNat < 32 :=
    BitVec.ctz_lt_iff_ne_zero.mpr some'
  have isSet := (getLsbD_wordBits nonempty first last inside).mp
    (BitVec.getLsbD_true_ctz_of_ne_zero some')
  refine ⟨isSet.1, isSet.2.1, isSet.2.2, ?_⟩
  intro j word above before held
  have place : w * 32 + j % 32 = j := by omega
  have early : j % 32 < (routes.wordBits lo hi w).ctz.toNat := by omega
  have unset := BitVec.getLsbD_false_of_lt_ctz early
  have isSet' : (routes.wordBits lo hi w).getLsbD (j % 32) = true ↔ _ :=
    getLsbD_wordBits nonempty first last (Nat.mod_lt j (show 0 < 32 by omega))
  rw [place, unset] at isSet'
  exact absurd (isSet'.mpr ⟨held, above, by omega⟩) Bool.false_ne_true

end ReadyRoutes

/-- Where a pass from `start` meets a route. -/
def position (len start id : ℕ) : ℕ := if start ≤ id then id else id + len

theorem position_bounds {len start id : ℕ} (isRoute : id < len) (started : start < len) :
    start ≤ position len start id ∧ position len start id < start + len := by
  unfold position
  split <;> omega

theorem position_injective {len start id j : ℕ} (isRoute : id < len) (other : j < len)
    (same : position len start id = position len start j) : id = j := by
  unfold position at same
  split at same <;> split at same <;> omega

def Half.shift (len : ℕ) : Half → ℕ
  | .upper => 0
  | .lower => len

/-- How far a pass has got: no route before it will be taken. -/
def frontier (len : ℕ) : Pc → ℕ
  | .scanning pass half w => max (range len pass half).1 (w * 32) + half.shift len
  | .clearing pass _ => pass.next
  | .polling pass _ _ => pass.next
  | .rewaking pass _ => pass.next
  | .notifying pass => pass.next
  | _ => 2 * len

/-- A pass starts after the cursor and stays within one round. -/
structure Pass.Valid (routes : ReadyRoutes) (pass : Pass) : Prop where
  start : pass.start = (routes.cursor + 1) % routes.len
  positive : 0 < routes.len
  begun : pass.start ≤ pass.next
  inside : pass.next ≤ pass.start + routes.len

theorem Pass.Valid.started {routes : ReadyRoutes} {pass : Pass} (valid : pass.Valid routes) :
    pass.start < routes.len := valid.start ▸ Nat.mod_lt _ valid.positive

/-- Route `id` has been taken last. -/
structure Pass.Took (routes : ReadyRoutes) (pass : Pass) (id : ℕ) : Prop where
  isRoute : id < routes.len
  isOpen : routes.IsOpen id
  next : pass.next = position routes.len pass.start id + 1

structure Pass.Scans (len : ℕ) (pass : Pass) (half : Half) (w : ℕ) : Prop where
  nonempty : (range len pass half).1 < (range len pass half).2
  first : (range len pass half).1 / 32 ≤ w
  last : w ≤ ((range len pass half).2 - 1) / 32

def Pc.Valid (routes : ReadyRoutes) : Pc → Prop
  | .idle => True
  | .scanning pass half w => pass.Valid routes ∧ pass.Scans routes.len half w
  | .clearing pass id => pass.Valid routes ∧ pass.Took routes id
  | .polling pass id skips => pass.Valid routes ∧ pass.Took routes id ∧ skips < skipBudget
  | .serving id => id < routes.len ∧ routes.IsOpen id
  | .rewaking pass id => pass.Valid routes ∧ pass.Took routes id
  | .notifying pass => pass.Valid routes
  | .finishing => True

structure Transport.Valid (s : Transport) : Prop where
  routes : s.routes.Valid
  pc : s.pc.Valid s.routes

section

variable {routes : ReadyRoutes} {pass : Pass}

theorem takeLower_valid (valid : pass.Valid routes) : (takeLower routes.len pass).Valid routes := by
  unfold takeLower
  dsimp only
  split
  · rename_i nonempty
    exact ⟨valid, nonempty, Nat.le_refl _, Nat.div_le_div_right (Nat.le_sub_one_of_lt nonempty)⟩
  · trivial

theorem takeNext_valid (valid : pass.Valid routes) : (takeNext routes.len pass).Valid routes := by
  unfold takeNext
  split
  · rename_i upper
    exact ⟨valid, upper, Nat.le_refl _, Nat.div_le_div_right (Nat.le_sub_one_of_lt upper)⟩
  · exact takeLower_valid valid

theorem frontier_takeLower {j : ℕ} (isRoute : j < routes.len)
    (ahead : pass.next ≤ position routes.len pass.start j)
    (wrapped : routes.len ≤ position routes.len pass.start j) :
    frontier routes.len (takeLower routes.len pass) ≤ position routes.len pass.start j := by
  have lower : ¬ pass.start ≤ j := by
    intro upper
    rw [position, if_pos upper] at wrapped
    omega
  rw [position, if_neg lower] at ahead wrapped ⊢
  have left : (range routes.len pass .lower).1 ≤ j := by
    rw [range]
    split <;> omega
  have nonempty : (range routes.len pass .lower).1 < (range routes.len pass .lower).2 :=
    Nat.lt_of_le_of_lt left (Nat.not_le.mp lower)
  have here : takeLower routes.len pass =
      .scanning pass .lower ((range routes.len pass .lower).1 / 32) := if_pos nonempty
  rw [here, frontier, Half.shift]
  omega

theorem frontier_takeNext {j : ℕ} (isRoute : j < routes.len)
    (ahead : pass.next ≤ position routes.len pass.start j) :
    frontier routes.len (takeNext routes.len pass) ≤ position routes.len pass.start j := by
  unfold takeNext
  split
  · simp only [frontier, Half.shift, range]
    omega
  · exact frontier_takeLower isRoute ahead (by omega)

def scanRank (len : ℕ) : Half → ℕ → ℕ
  | .upper, w => 2 * len + 3 - w
  | .lower, w => len + 1 - w

/-- An open route that woke and that the scan has not got to. -/
structure Due (routes : ReadyRoutes) (pass : Pass) (at' : ℕ) (j : ℕ) : Prop where
  isReady : routes.IsReady j
  isOpen : routes.IsOpen j
  ahead : at' ≤ position routes.len pass.start j

/-- Loading a word takes the first route that is due, or goes on past none. -/
inductive Scanned (routes : ReadyRoutes) (pass : Pass) (half : Half) (w : ℕ) :
    Pc × List Event → Prop
  | takes {id : ℕ} {after : Pass} : after.start = pass.start → after.Took routes id →
      Due routes pass (frontier routes.len (.scanning pass half w)) id →
      pass.next ≤ position routes.len pass.start id →
      (∀ j, Due routes pass (frontier routes.len (.scanning pass half w)) j →
        position routes.len pass.start id ≤ position routes.len pass.start j) →
      Scanned routes pass half w (.clearing after id, [.taken id])
  | goes {pc : Pc} :
      (pc = .finishing ∨ ∃ half' w', pc = .scanning pass half' w' ∧
        scanRank routes.len half' w' < scanRank routes.len half w) →
      pc.Valid routes →
      (∀ j, Due routes pass (frontier routes.len (.scanning pass half w)) j →
        frontier routes.len pc ≤ position routes.len pass.start j) →
      Scanned routes pass half w (pc, [])

theorem position_of_range {half : Half} {id : ℕ} (valid : pass.Valid routes)
    (above : (range routes.len pass half).1 ≤ id) (under : id < (range routes.len pass half).2) :
    id < routes.len ∧ pass.next ≤ position routes.len pass.start id ∧
      position routes.len pass.start id = id + half.shift routes.len := by
  have begun := valid.begun
  have started := valid.started
  cases half with
  | upper =>
      have after : pass.next ≤ id := above
      have here : position routes.len pass.start id = id := if_pos (by omega)
      rw [here]
      exact ⟨under, after, rfl⟩
  | lower =>
      have before : id < pass.start := under
      have here : position routes.len pass.start id = id + routes.len := if_neg (by omega)
      rw [here]
      refine ⟨by omega, ?_, rfl⟩
      rw [range] at above
      dsimp only at above
      split at above <;> omega

theorem range_of_due {half : Half} {w j : ℕ} (routesValid : routes.Valid)
    (valid : pass.Valid routes)
    (due : Due routes pass (frontier routes.len (.scanning pass half w)) j) :
    (w * 32 ≤ j ∧ (range routes.len pass half).1 ≤ j ∧
      j < (range routes.len pass half).2 ∧
        position routes.len pass.start j = j + half.shift routes.len) ∨
      half = .upper ∧ routes.len ≤ position routes.len pass.start j := by
  have begun := valid.begun
  have started := valid.started
  have isRoute := routesValid.isRoute j due.isOpen
  have ahead := due.ahead
  rw [frontier] at ahead
  by_cases upper : pass.start ≤ j
  · have here : position routes.len pass.start j = j := if_pos upper
    rw [here] at ahead ⊢
    cases half with
    | upper =>
        simp only [Half.shift, range] at ahead ⊢
        exact .inl ⟨by omega, by omega, isRoute, rfl⟩
    | lower =>
        simp only [Half.shift] at ahead
        omega
  · have here : position routes.len pass.start j = j + routes.len := if_neg upper
    rw [here] at ahead ⊢
    cases half with
    | upper => exact .inr ⟨rfl, Nat.le_add_left _ _⟩
    | lower =>
        simp only [Half.shift] at ahead ⊢
        exact .inl ⟨by omega, by omega, Nat.not_le.mp upper, trivial⟩

theorem takeLower_cases (valid : pass.Valid routes) :
    takeLower routes.len pass = .finishing ∨
      ∃ w ≤ routes.len, takeLower routes.len pass = .scanning pass .lower w := by
  unfold takeLower
  dsimp only
  split
  · rename_i nonempty
    have started := valid.started
    have lower : (range routes.len pass .lower).1 < pass.start := nonempty
    exact .inr ⟨_, by omega, rfl⟩
  · exact .inl rfl

theorem range_le (valid : pass.Valid routes) (half : Half) :
    (range routes.len pass half).2 ≤ routes.len := by
  cases half with
  | upper => exact Nat.le_refl _
  | lower => exact Nat.le_of_lt valid.started

theorem scanned {half : Half} {w : ℕ} (routesValid : routes.Valid) (valid : pass.Valid routes)
    (scans : pass.Scans routes.len half w) :
    Scanned routes pass half w (scan routes pass half w) := by
  obtain ⟨nonempty, first, last⟩ := scans
  unfold scan
  dsimp only
  split
  · rename_i found
    obtain ⟨held, above, under, earliest⟩ := ReadyRoutes.wordBits_ctz nonempty first last found
    obtain ⟨isRoute, after, place⟩ := position_of_range valid above under
    refine .takes rfl ⟨isRoute, held.2, rfl⟩ ⟨held.1, held.2, ?_⟩ after ?_
    · rw [place, frontier]
      omega
    · intro j due
      rcases range_of_due routesValid valid due with
        ⟨word, from', to', there⟩ | ⟨rfl, later⟩
      · rw [place, there]
        by_contra before
        have inside := BitVec.ctz_lt_iff_ne_zero.mpr found
        have narrow : BitVec.toNat (BitVec.ctz _) < 32 := inside
        exact earliest j (by omega) from' (by omega) ⟨due.isReady, due.isOpen⟩
      · rw [place]
        exact Nat.le_trans (Nat.le_of_lt isRoute) later
  · rename_i empty
    have none : ∀ j, j / 32 = w → (range routes.len pass half).1 ≤ j →
        j < (range routes.len pass half).2 → ¬ (routes.IsReady j ∧ routes.IsOpen j) :=
      fun j => ReadyRoutes.wordBits_eq_zero nonempty first last (not_not.mp empty)
    split
    · rename_i more
      have inside := range_le valid half
      have lower : scanRank routes.len half (w + 1) < scanRank routes.len half w := by
        cases half with
        | upper =>
            simp only [scanRank]
            omega
        | lower =>
            simp only [scanRank]
            omega
      refine .goes (.inr ⟨_, _, rfl, lower⟩) ⟨valid, nonempty, by omega, more⟩
        fun j due => ?_
      rcases range_of_due routesValid valid due with
        ⟨word, from', to', there⟩ | ⟨rfl, later⟩
      · have other : j / 32 ≠ w :=
          fun same => none j same from' to' ⟨due.isReady, due.isOpen⟩
        rw [there, frontier]
        omega
      · have bound : w < (routes.len - 1) / 32 := more
        have ahead : max pass.next (w * 32) ≤ position routes.len pass.start j := due.ahead
        change max pass.next ((w + 1) * 32) ≤ position routes.len pass.start j
        omega
    · rename_i isLast
      cases half with
      | upper =>
          refine .goes ?_ (takeLower_valid valid) fun j due => ?_
          · rcases takeLower_cases valid with same | ⟨w', inside, same⟩
            · exact .inl same
            · refine .inr ⟨_, _, same, ?_⟩
              have upper : (range routes.len pass .upper).2 = routes.len := rfl
              simp only [scanRank]
              omega
          · have isRoute := routesValid.isRoute j due.isOpen
            have after : pass.next ≤ position routes.len pass.start j :=
              Nat.le_trans (Nat.le_max_left _ _) due.ahead
            apply frontier_takeLower isRoute after
            rcases range_of_due routesValid valid due with
              ⟨word, from', to', -⟩ | ⟨-, later⟩
            · exact absurd ⟨due.isReady, due.isOpen⟩ (none j (by omega) from' to')
            · exact later
      | lower =>
          refine .goes (.inl rfl) trivial fun j due => ?_
          rcases range_of_due routesValid valid due with ⟨word, from', to', -⟩ | ⟨other, -⟩
          · exact absurd ⟨due.isReady, due.isOpen⟩ (none j (by omega) from' to')
          · cases other

end

end AimDb.Outbound
