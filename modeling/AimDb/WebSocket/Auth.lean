import AimDb.Session.TopicMatch.Containment

/-!
# Permissions of a client

A client reads by patterns of record keys.  At the upgrade they are resolved into a
bit mask over the registered records, one bit a record, and every path but the query
checks the mask.
-/

namespace AimDb.WebSocket

open Session.TopicMatch

structure Permissions where
  readPatterns : List String := []
  writePatterns : List String := []
  deriving DecidableEq, Repr

def Permissions.canRead (permissions : Permissions) (key : String) : Bool :=
  permissions.readPatterns.any fun p => patternContains p key

def Permissions.Covers (permissions : Permissions) (key : String) : Prop :=
  ∃ p ∈ permissions.readPatterns, key ∈ matchSet p

theorem Permissions.covers_of_canRead {permissions : Permissions} {key : String}
    (granted : permissions.canRead key) : permissions.Covers key := by
  obtain ⟨p, isPattern, contained⟩ := List.any_eq_true.mp granted
  exact ⟨p, isPattern, matchSet_subset_of_contains contained (aligns_self _)⟩

/-- Bit `i % 8` of byte `i / 8` stands for record `i`. -/
structure RecordsBits where
  length : ℕ
  masks : List UInt8
  deriving DecidableEq, Repr

namespace RecordsBits

def new (length : ℕ) : RecordsBits := ⟨length, List.replicate ((length + 7) / 8) 0⟩

def mask (index : ℕ) : UInt8 := 1 <<< (index % 8).toUInt8

/-- An index past the end is not allowed; one inside it that found no byte would be a
panic, and reads as not allowed here. -/
def isAllowed (bits : RecordsBits) (index : ℕ) : Bool :=
  if bits.length ≤ index then false
  else
    match bits.masks[index / 8]? with
    | some block => block &&& mask index ≠ 0
    | none => false

def set (bits : RecordsBits) (index : ℕ) : RecordsBits :=
  if bits.length ≤ index then bits
  else { bits with masks := bits.masks.modify (index / 8) (· ||| mask index) }

def resolvePermissions (records : List String) (permissions : Permissions) : RecordsBits :=
  records.zipIdx.foldl
    (fun bits entry => if permissions.canRead entry.1 then bits.set entry.2 else bits)
    (new records.length)

def Sized (bits : RecordsBits) : Prop := bits.masks.length = (bits.length + 7) / 8

theorem sized_new (length : ℕ) : (new length).Sized := List.length_replicate

variable {bits : RecordsBits} {index other : ℕ}

@[simp] theorem length_set : (bits.set index).length = bits.length := by
  rw [set]
  split <;> rfl

theorem Sized.set (sized : bits.Sized) (index : ℕ) : (bits.set index).Sized := by
  rw [Sized, length_set, RecordsBits.set]
  split
  · exact sized
  · simpa [Sized] using sized

theorem isAllowed_new (length index : ℕ) : (new length).isAllowed index = false := by
  rw [isAllowed]
  split
  · rfl
  · rw [new, List.getElem?_replicate]
    by_cases inside : index / 8 < (length + 7) / 8
    · simp [inside]
    · simp [inside]

theorem mask_and_mask (sameByte : index / 8 = other / 8) :
    (mask index &&& mask other ≠ 0) ↔ index = other := by
  have bits : ∀ r < 8, ∀ s < 8,
      ((1 : UInt8) <<< (Nat.toUInt8 r) &&& (1 : UInt8) <<< (Nat.toUInt8 s) ≠ 0) ↔ r = s := by
    decide
  rw [mask, mask, bits _ (Nat.mod_lt _ (by decide)) _ (Nat.mod_lt _ (by decide))]
  omega

theorem or_and_ne_zero (block a b : UInt8) :
    ((block ||| a) &&& b ≠ 0) ↔ block &&& b ≠ 0 ∨ a &&& b ≠ 0 := by
  have distrib : (block ||| a) &&& b = (block &&& b) ||| (a &&& b) := by
    apply UInt8.toBitVec_inj.mp
    simp only [UInt8.toBitVec_and, UInt8.toBitVec_or, BitVec.and_or_distrib_right]
  rw [distrib, ne_eq, UInt8.or_eq_zero_iff, not_and_or]

theorem isAllowed_set (sized : bits.Sized) :
    (bits.set index).isAllowed other = true ↔
      bits.isAllowed other = true ∨ other = index ∧ index < bits.length := by
  rw [isAllowed, length_set, isAllowed]
  by_cases past : bits.length ≤ other
  · simp only [if_pos past]
    simp
    omega
  · simp only [if_neg past]
    have inBlocks : other / 8 < bits.masks.length := by rw [sized]; omega
    by_cases settable : bits.length ≤ index
    · simp [set, settable]
    · rw [set, if_neg settable]
      dsimp only
      rw [List.getElem?_modify, List.getElem?_eq_getElem inBlocks]
      by_cases sameByte : index / 8 = other / 8
      · have both := or_and_ne_zero bits.masks[other / 8] (mask index) (mask other)
        rw [mask_and_mask sameByte] at both
        simp only [if_pos sameByte, Option.map_eq_map, Option.map_some, decide_eq_true_eq, both]
        exact or_congr_right
          ⟨fun same => ⟨same.symm, Nat.lt_of_not_le settable⟩, fun same => same.1.symm⟩
      · simp only [if_neg sameByte, Option.map_eq_map, Option.map_some, decide_eq_true_eq]
        have different : other ≠ index := by
          rintro rfl
          exact sameByte rfl
        simp [different]

theorem isAllowed_foldl {permissions : Permissions} {entries : List (String × ℕ)}
    (sized : bits.Sized) (inside : ∀ entry ∈ entries, entry.2 < bits.length) :
    (entries.foldl
        (fun bits entry => if permissions.canRead entry.1 then bits.set entry.2 else bits)
        bits).isAllowed index = true ↔
      bits.isAllowed index = true ∨
        ∃ entry ∈ entries, index = entry.2 ∧ permissions.canRead entry.1 = true := by
  induction entries generalizing bits with
  | nil => simp
  | cons entry entries inductionHypothesis =>
      rw [List.forall_mem_cons] at inside
      rw [List.foldl_cons, List.exists_mem_cons_iff, ← or_assoc]
      by_cases granted : permissions.canRead entry.1 = true
      · rw [if_pos granted, inductionHypothesis (sized.set _) (by simpa using inside.2),
          isAllowed_set sized]
        simp [granted, inside.1]
      · rw [if_neg granted, inductionHypothesis sized inside.2]
        simp [granted]

theorem isAllowed_resolvePermissions (records : List String) (permissions : Permissions)
    (index : ℕ) :
    (resolvePermissions records permissions).isAllowed index = true ↔
      ∃ key, records[index]? = some key ∧ permissions.canRead key = true := by
  have inside : ∀ entry ∈ records.zipIdx, entry.2 < (new records.length).length := by
    intro entry mem
    exact (List.getElem?_eq_some_iff.mp (List.mem_zipIdx_iff_getElem?.mp mem)).1
  rw [resolvePermissions, isAllowed_foldl (sized_new _) inside, isAllowed_new]
  constructor
  · rintro (no | ⟨entry, mem, rfl, granted⟩)
    · cases no
    · exact ⟨entry.1, List.mem_zipIdx_iff_getElem?.mp mem, granted⟩
  · rintro ⟨key, found, granted⟩
    exact .inr ⟨(key, index), List.mem_zipIdx_iff_getElem?.mpr found, rfl, granted⟩

end RecordsBits

end AimDb.WebSocket
