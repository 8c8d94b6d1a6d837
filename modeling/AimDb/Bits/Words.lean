import Mathlib.Data.List.Basic
import Mathlib.Tactic.Common

/-!
# Sets of numbers in words

A set of small numbers kept as a list of machine words: number `i` is bit `i % w` of
word `i / w`.
-/

namespace AimDb.Bits

variable {w : ℕ}

/-- The bits from `low` on. -/
def above (low : ℕ) : BitVec w := BitVec.allOnes w <<< low

/-- The bits below `high`. -/
def below (high : ℕ) : BitVec w := (1#w <<< high) - 1#w

theorem getLsbD_above {low i : ℕ} (inside : i < w) :
    (above low : BitVec w).getLsbD i = decide (low ≤ i) := by
  rw [above, BitVec.getLsbD_shiftLeft, BitVec.getLsbD_allOnes]
  by_cases lower : i < low
  · simp [inside, lower, Nat.not_le.mpr lower]
  · have small : i - low < w := by omega
    simp [inside, lower, small, Nat.not_lt.mp lower]

theorem getLsbD_below {high i : ℕ} (narrow : high < w) :
    (below high : BitVec w).getLsbD i = decide (i < high) := by
  have power : 2 ^ high < 2 ^ w := Nat.pow_lt_pow_right (by omega) narrow
  have positive : 0 < 2 ^ high := Nat.pow_pos (by omega)
  have one : 1 % 2 ^ w = 1 := Nat.mod_eq_of_lt (by omega)
  have same : (below high : BitVec w) = BitVec.ofNat w (2 ^ high - 1) := by
    apply BitVec.eq_of_toNat_eq
    have shifted : (1#w <<< high).toNat = 2 ^ high := by
      rw [BitVec.toNat_shiftLeft, BitVec.toNat_ofNat, one, Nat.shiftLeft_eq, Nat.one_mul,
        Nat.mod_eq_of_lt power]
    have total : 2 ^ w - 1 + 2 ^ high = 2 ^ w + (2 ^ high - 1) := by omega
    rw [below, BitVec.toNat_sub, shifted, BitVec.toNat_ofNat, one, BitVec.toNat_ofNat, total,
      Nat.add_mod_left]
  rw [same, BitVec.getLsbD_ofNat, Nat.testBit_two_pow_sub_one]
  by_cases lower : i < high
  · have inside : i < w := Nat.lt_trans lower narrow
    simp [lower, inside]
  · simp [lower]

/-- The word that holds only `i`. -/
def bit (i : ℕ) : BitVec w := 1#w <<< (i % w)

theorem getLsbD_bit (i k : ℕ) : (bit i : BitVec w).getLsbD k = decide (k < w ∧ k = i % w) := by
  rw [bit, BitVec.getLsbD_shiftLeft, BitVec.getLsbD_one]
  by_cases inside : k < w
  · by_cases same : k = i % w
    · simp [same]
      omega
    · by_cases lower : k < i % w
      · simp [lower, same]
      · have : k - i % w ≠ 0 := by omega
        simp [lower, same, this]
  · simp [inside]

def test (words : List (BitVec w)) (i : ℕ) : Bool := (words.getD (i / w) 0#w).getLsbD (i % w)

def insert (words : List (BitVec w)) (i : ℕ) : List (BitVec w) :=
  words.modify (i / w) (· ||| bit i)

def erase (words : List (BitVec w)) (i : ℕ) : List (BitVec w) :=
  words.modify (i / w) (· &&& ~~~bit i)

variable {words : List (BitVec w)} {i j : ℕ}

@[simp] theorem length_insert : (insert words i).length = words.length := List.length_modify ..

@[simp] theorem length_erase : (erase words i).length = words.length := List.length_modify ..

theorem getD_modify (change : BitVec w → BitVec w) (k n : ℕ) (inside : k < words.length) :
    (words.modify k change).getD n 0#w =
      if n = k then change (words.getD n 0#w) else words.getD n 0#w := by
  rw [List.getD_eq_getElem?_getD, List.getD_eq_getElem?_getD, List.getElem?_modify]
  by_cases same : n = k
  · subst same
    simp [inside]
  · simp [same, Ne.symm same]

theorem eq_of_div_mod (word : i / w = j / w) (place : i % w = j % w) : i = j := by
  rw [← Nat.div_add_mod i w, ← Nat.div_add_mod j w, word, place]

theorem test_insert (positive : 0 < w) (inside : i / w < words.length) :
    test (insert words i) j = (decide (j = i) || test words j) := by
  rw [test, insert, getD_modify _ _ _ inside]
  by_cases word : j / w = i / w
  · rw [if_pos word, BitVec.getLsbD_or, getLsbD_bit, Bool.or_comm]
    by_cases place : j % w = i % w
    · simp [eq_of_div_mod word place, Nat.mod_lt _ positive]
    · have other : j ≠ i := fun same => place (congrArg (· % w) same)
      simp [place, other, test]
  · have other : j ≠ i := fun same => word (congrArg (· / w) same)
    simp [word, other, test]

theorem test_erase (positive : 0 < w) (inside : i / w < words.length) :
    test (erase words i) j = (!decide (j = i) && test words j) := by
  rw [test, erase, getD_modify _ _ _ inside]
  by_cases word : j / w = i / w
  · rw [if_pos word, BitVec.getLsbD_and, BitVec.getLsbD_not, getLsbD_bit, Bool.and_comm]
    by_cases place : j % w = i % w
    · simp [eq_of_div_mod word place, Nat.mod_lt _ positive]
    · have other : j ≠ i := fun same => place (congrArg (· % w) same)
      simp [place, other, test, Nat.mod_lt _ positive]
  · have other : j ≠ i := fun same => word (congrArg (· / w) same)
    simp [word, other, test]

theorem test_foldl_insert (positive : 0 < w) {ids : List ℕ}
    (inside : ∀ i ∈ ids, i / w < words.length) :
    test (ids.foldl insert words) j = (decide (j ∈ ids) || test words j) := by
  induction ids generalizing words with
  | nil => simp
  | cons i ids inductionHypothesis =>
      have rest : ∀ k ∈ ids, k / w < (insert words i).length := by
        intro k later
        rw [length_insert]
        exact inside k (List.mem_cons_of_mem i later)
      rw [List.foldl_cons, inductionHypothesis rest,
        test_insert positive (inside i List.mem_cons_self)]
      by_cases first : j = i <;> simp [first]

theorem length_foldl_insert (ids : List ℕ) :
    (ids.foldl insert words).length = words.length := by
  induction ids generalizing words with
  | nil => rfl
  | cons i ids inductionHypothesis => rw [List.foldl_cons, inductionHypothesis, length_insert]

theorem test_replicate_zero (n : ℕ) : test (List.replicate n 0#w) i = false := by
  rw [test, List.getD_eq_getElem?_getD, List.getElem?_replicate]
  split <;> exact BitVec.getLsbD_zero

theorem test_of_word {k : ℕ} (small : k < w) (n : ℕ) :
    test words (n * w + k) = (words.getD n 0#w).getLsbD k := by
  have place : (n * w + k) % w = k := by
    rw [Nat.mul_comm, Nat.mul_add_mod, Nat.mod_eq_of_lt small]
  have word : (n * w + k) / w = n := by
    rw [Nat.mul_comm, Nat.mul_add_div (by omega), Nat.div_eq_of_lt small, Nat.add_zero]
  rw [test, word, place]

end AimDb.Bits
