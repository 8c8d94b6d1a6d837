import Mathlib.Data.List.Nodup
import Mathlib.Tactic.Common

/-!
# Bounded index maps

A map of bounded capacity whose entries lie in slots: a new key is appended, a
known key keeps its slot, and a removal moves the last entry into the freed slot.
-/

namespace AimDb.Containers

variable {κ ν : Type*} [DecidableEq κ]

def swapOut (key : κ) : List (κ × ν) → List (κ × ν)
  | [] => []
  | entry :: rest =>
      if entry.1 = key then
        match rest.getLast? with
        | none => []
        | some last => last :: rest.dropLast
      else entry :: swapOut key rest

theorem swapOut_perm (key : κ) {entries : List (κ × ν)}
    (distinct : (entries.map Prod.fst).Nodup) :
    (swapOut key entries).Perm (entries.filter (·.1 ≠ key)) := by
  induction entries with
  | nil => exact .nil
  | cons entry rest inductionHypothesis =>
      obtain ⟨fresh, distinctRest⟩ := List.nodup_cons.mp distinct
      rw [swapOut]
      split
      · next isKey =>
        have others : rest.filter (·.1 ≠ key) = rest := by
          apply List.filter_eq_self.mpr
          intro other mem
          have different : other.1 ≠ key := by
            rw [← isKey]
            exact fun same => fresh (List.mem_map.mpr ⟨other, mem, same⟩)
          simpa using different
        rw [List.filter_cons_of_neg (by simpa using isKey), others]
        cases rest.eq_nil_or_concat with
        | inl empty =>
            rw [empty]
            exact .nil
        | inr ending =>
            obtain ⟨front, last, split⟩ := ending
            rw [split, List.concat_eq_append, List.getLast?_append, List.dropLast_concat]
            exact (List.perm_append_singleton last front).symm
      · next other =>
        rw [List.filter_cons_of_pos (by simpa using other)]
        exact (inductionHypothesis distinctRest).cons entry

def swapErase (key : κ) : List κ → List κ
  | [] => []
  | first :: rest =>
      if first = key then
        match rest.getLast? with
        | none => []
        | some last => last :: rest.dropLast
      else first :: swapErase key rest

theorem map_fst_swapOut (key : κ) (entries : List (κ × ν)) :
    (swapOut key entries).map Prod.fst = swapErase key (entries.map Prod.fst) := by
  induction entries with
  | nil => rfl
  | cons entry rest inductionHypothesis =>
      rw [swapOut, List.map_cons, swapErase]
      split
      · rw [List.getLast?_map]
        cases rest.getLast? with
        | none => rfl
        | some last => simp [List.map_dropLast]
      · rw [List.map_cons, inductionHypothesis]

theorem swapErase_perm (key : κ) (slots : List κ) :
    (swapErase key slots).Perm (slots.erase key) := by
  induction slots with
  | nil => exact .nil
  | cons first rest inductionHypothesis =>
      rw [swapErase]
      split
      · next isKey =>
        rw [isKey, List.erase_cons_head]
        cases rest.eq_nil_or_concat with
        | inl empty => rw [empty]; exact .nil
        | inr ending =>
            obtain ⟨front, last, split⟩ := ending
            rw [split, List.concat_eq_append, List.getLast?_append, List.dropLast_concat]
            exact (List.perm_append_singleton last front).symm
      · next other =>
        rw [List.erase_cons_tail (by simpa using other)]
        exact inductionHypothesis.cons first

theorem head?_swapErase (key : κ) (slots : List κ) :
    (swapErase key slots).head? =
      if slots.head? = some key then slots.tail.getLast? else slots.head? := by
  cases slots with
  | nil => rfl
  | cons first rest =>
      by_cases isKey : first = key
      · rw [swapErase, if_pos isKey, if_pos (by simp [isKey]), List.tail_cons]
        cases rest.getLast? <;> rfl
      · rw [swapErase, if_neg isKey, if_neg (by simpa using isKey)]
        rfl

structure IndexMap (κ ν : Type*) (capacity : ℕ) where
  entries : List (κ × ν)
  distinct : (entries.map Prod.fst).Nodup
  bounded : entries.length ≤ capacity

namespace IndexMap

variable {capacity : ℕ}

def empty : IndexMap κ ν capacity := ⟨[], List.nodup_nil, Nat.zero_le _⟩

def keys (map : IndexMap κ ν capacity) : List κ := map.entries.map Prod.fst

def get? (map : IndexMap κ ν capacity) (key : κ) : Option ν :=
  (map.entries.find? (·.1 = key)).map Prod.snd

/-- Apply `change` to the value of a key. -/
def modify (map : IndexMap κ ν capacity) (key : κ) (change : ν → ν) :
    IndexMap κ ν capacity where
  entries := map.entries.map fun entry => if entry.1 = key then (entry.1, change entry.2) else entry
  distinct := by
    have same : (map.entries.map fun entry =>
        if entry.1 = key then (entry.1, change entry.2) else entry).map Prod.fst =
        map.entries.map Prod.fst := by
      rw [List.map_map]
      apply List.map_congr_left
      intro entry _
      by_cases isKey : entry.1 = key <;> simp [isKey]
    rw [same]
    exact map.distinct
  bounded := by
    rw [List.length_map]
    exact map.bounded

/-- `none` when the key is new and every slot is taken. -/
def insert (map : IndexMap κ ν capacity) (key : κ) (value : ν) :
    Option (IndexMap κ ν capacity) :=
  if known : key ∈ map.keys then some (map.modify key fun _ => value)
  else if room : map.entries.length < capacity then
    some {
      entries := map.entries ++ [(key, value)]
      distinct := by
        rw [List.map_append, List.nodup_append]
        refine ⟨map.distinct, List.nodup_singleton _, fun other mem last isLast => ?_⟩
        obtain rfl : last = key := by simpa using isLast
        exact fun same => known (same ▸ mem)
      bounded := by
        rw [List.length_append]
        exact room }
  else none

def remove (map : IndexMap κ ν capacity) (key : κ) : IndexMap κ ν capacity where
  entries := swapOut key map.entries
  distinct := by
    have perm := (swapOut_perm key map.distinct).map Prod.fst
    rw [perm.nodup_iff]
    exact map.distinct.sublist (List.filter_sublist.map _)
  bounded := by
    rw [(swapOut_perm key map.distinct).length_eq]
    exact Nat.le_trans (List.length_filter_le _ _) map.bounded

variable {map : IndexMap κ ν capacity} {key other : κ} {value : ν}

omit [DecidableEq κ] in
@[simp] theorem keys_empty : (empty : IndexMap κ ν capacity).keys = [] := rfl

omit [DecidableEq κ] in
theorem mem_keys_iff : key ∈ map.keys ↔ ∃ value, (key, value) ∈ map.entries := by
  simp [keys]

@[simp] theorem keys_modify (change : ν → ν) : (map.modify key change).keys = map.keys := by
  rw [keys, modify, List.map_map]
  apply List.map_congr_left
  intro entry _
  by_cases isKey : entry.1 = key <;> simp [isKey]

@[simp] theorem mem_entries_remove {entry : κ × ν} :
    entry ∈ (map.remove key).entries ↔ entry ∈ map.entries ∧ entry.1 ≠ key := by
  rw [remove, (swapOut_perm key map.distinct).mem_iff, List.mem_filter]
  simp

@[simp] theorem mem_keys_remove :
    other ∈ (map.remove key).keys ↔ other ∈ map.keys ∧ other ≠ key := by
  simp only [mem_keys_iff, mem_entries_remove, exists_and_right]

theorem keys_remove : (map.remove key).keys = swapErase key map.keys :=
  map_fst_swapOut key map.entries

theorem length_remove_of_mem (mem : key ∈ map.keys) :
    (map.remove key).entries.length < map.entries.length := by
  rw [remove, (swapOut_perm key map.distinct).length_eq, List.length_filter_lt_length_iff_exists]
  obtain ⟨value, held⟩ := mem_keys_iff.mp mem
  exact ⟨(key, value), held, by simp⟩

/-- A new key finds a slot exactly when one is free, and is then one more key. -/
theorem insert_of_not_mem (value : ν) (fresh : key ∉ map.keys) :
    (capacity ≤ map.entries.length ∧ map.insert key value = none) ∨
      ∃ after, map.insert key value = some after ∧
        after.entries = map.entries ++ [(key, value)] := by
  rw [insert, dif_neg fresh]
  split
  · exact .inr ⟨_, rfl, rfl⟩
  · next full => exact .inl ⟨Nat.le_of_not_lt full, rfl⟩

theorem get?_eq_some_iff : map.get? key = some value ↔ (key, value) ∈ map.entries := by
  rw [get?, Option.map_eq_some_iff]
  constructor
  · rintro ⟨entry, found, rfl⟩
    have isKey : entry.1 = key := by simpa using List.find?_some found
    rw [← isKey]
    exact List.mem_of_find?_eq_some found
  · intro mem
    have known : (map.entries.find? (·.1 = key)).isSome :=
      List.find?_isSome.mpr ⟨_, mem, by simp⟩
    obtain ⟨entry, found⟩ := Option.isSome_iff_exists.mp known
    have isKey : entry.1 = key := by simpa using List.find?_some found
    have same := List.inj_on_of_nodup_map map.distinct (List.mem_of_find?_eq_some found) mem isKey
    exact ⟨entry, found, by rw [same]⟩

theorem mem_keys_of_get? (found : map.get? key = some value) : key ∈ map.keys :=
  mem_keys_iff.mpr ⟨value, get?_eq_some_iff.mp found⟩

theorem get?_eq_none_iff : map.get? key = none ↔ key ∉ map.keys := by
  rw [mem_keys_iff, Option.eq_none_iff_forall_ne_some]
  push Not
  exact forall_congr' fun value => not_congr get?_eq_some_iff

theorem get?_remove_self : (map.remove key).get? key = none := by
  rw [get?_eq_none_iff, mem_keys_remove]
  exact fun mem => mem.2 rfl

theorem get?_modify_self (change : ν → ν) (found : map.get? key = some value) :
    (map.modify key change).get? key = some (change value) := by
  rw [get?_eq_some_iff] at found ⊢
  exact List.mem_map.mpr ⟨_, found, if_pos rfl⟩

theorem get?_of_append {after : IndexMap κ ν capacity} (fresh : key ∉ map.keys)
    (grown : after.entries = map.entries ++ [(key, value)]) (other : κ) :
    after.get? other = if other = key then some value else map.get? other := by
  apply Option.ext
  intro found
  rw [get?_eq_some_iff, grown, List.mem_append, List.mem_singleton]
  split
  · next same =>
    rw [same]
    have unknown : (key, found) ∉ map.entries :=
      fun mem => fresh (mem_keys_iff.mpr ⟨found, mem⟩)
    simp [unknown, eq_comm]
  · next different => simp [get?_eq_some_iff, different]

theorem get?_remove_of_ne (different : other ≠ key) :
    (map.remove key).get? other = map.get? other := by
  apply Option.ext
  intro found
  simp [get?_eq_some_iff, different]

theorem get?_modify_of_ne (change : ν → ν) (different : other ≠ key) :
    (map.modify key change).get? other = map.get? other := by
  apply Option.ext
  intro found
  rw [get?_eq_some_iff, get?_eq_some_iff, modify, List.mem_map]
  constructor
  · rintro ⟨entry, mem, isOther⟩
    split at isOther
    · next isKey =>
      obtain ⟨sameKey, -⟩ := Prod.mk.inj isOther
      exact absurd (sameKey.symm.trans isKey) different
    · rwa [← isOther]
  · exact fun mem => ⟨_, mem, if_neg different⟩

end IndexMap

end AimDb.Containers
