import Mathlib.Data.List.Nodup

/-!
# Association lists whose entries are replaced in place
-/

namespace AimDb.Containers.Assoc

variable {κ ν : Type*} [DecidableEq κ] {entries : List (κ × ν)} {key other : κ} {value : ν}

def replace (entries : List (κ × ν)) (key : κ) (value : ν) : List (κ × ν) :=
  entries.map fun entry => if entry.1 = key then (key, value) else entry

@[simp] theorem keys_replace (entries : List (κ × ν)) (key : κ) (value : ν) :
    (replace entries key value).map Prod.fst = entries.map Prod.fst := by
  rw [replace, List.map_map]
  apply List.map_congr_left
  intro entry _
  by_cases isKey : entry.1 = key
  · simp [isKey]
  · simp [isKey]

theorem mem_replace {entry : κ × ν} (mem : entry ∈ replace entries key value) :
    entry = (key, value) ∨ entry.1 ≠ key ∧ entry ∈ entries := by
  obtain ⟨before, inEntries, isEntry⟩ := List.mem_map.mp mem
  by_cases isKey : before.1 = key
  · rw [if_pos isKey] at isEntry
    exact .inl isEntry.symm
  · rw [if_neg isKey] at isEntry
    exact .inr (isEntry ▸ ⟨isKey, inEntries⟩)

theorem lookup_isSome_iff : (entries.lookup key).isSome ↔ key ∈ entries.map Prod.fst := by
  simp

theorem mem_of_lookup (found : entries.lookup key = some value) : (key, value) ∈ entries := by
  induction entries with
  | nil => cases found
  | cons entry entries inductionHypothesis =>
      obtain ⟨k, v⟩ := entry
      by_cases isKey : k = key
      · subst isKey
        simp only [List.lookup_cons, beq_self_eq_true] at found
        rw [Option.some.inj found]
        exact List.mem_cons_self
      · simp only [List.lookup_cons, beq_eq_false_iff_ne.mpr (Ne.symm isKey)] at found
        exact List.mem_cons_of_mem _ (inductionHypothesis found)

theorem lookup_of_mem (distinct : (entries.map Prod.fst).Nodup) (mem : (key, value) ∈ entries) :
    entries.lookup key = some value := by
  induction entries with
  | nil => cases mem
  | cons entry entries inductionHypothesis =>
      obtain ⟨k, v⟩ := entry
      rw [List.map_cons, List.nodup_cons] at distinct
      rcases List.mem_cons.mp mem with same | later
      · obtain ⟨rfl, rfl⟩ := Prod.mk.inj same
        simp
      · have different : key ≠ k := by
          rintro rfl
          exact distinct.1 (List.mem_map.mpr ⟨_, later, rfl⟩)
        simp only [List.lookup_cons, beq_eq_false_iff_ne.mpr different]
        exact inductionHypothesis distinct.2 later

theorem nodup_keys_append (distinct : (entries.map Prod.fst).Nodup)
    (fresh : entries.lookup key = none) : ((entries ++ [(key, value)]).map Prod.fst).Nodup := by
  have absent : key ∉ entries.map Prod.fst := by
    rw [← lookup_isSome_iff, fresh]
    exact Bool.false_ne_true
  rw [List.map_append]
  refine List.nodup_append.mpr ⟨distinct, List.nodup_singleton _, ?_⟩
  rintro a mem b isKey rfl
  rw [List.mem_singleton.mp isKey] at mem
  exact absent mem

end AimDb.Containers.Assoc
