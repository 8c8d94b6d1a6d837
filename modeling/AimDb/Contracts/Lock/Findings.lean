import AimDb.Contracts.Lock

/-!
# When a report has no findings

A report is clean exactly when the lock names no contract twice, the catalog lists
none twice, every shape can be traced, and no locked shape changed. The entries of
a clean report are those of the catalog.
-/

namespace AimDb.Contracts

namespace EntryMap

def ids (map : EntryMap) : List ContractId := map.map Entry.id

theorem get_eq_none {map : EntryMap} {id : ContractId} : map.get id = none ↔ id ∉ map.ids := by
  simp [get, ids, List.find?_eq_none]

theorem mem_of_get {map : EntryMap} {id : ContractId} {entry : Entry}
    (found : map.get id = some entry) : entry ∈ map ∧ entry.id = id :=
  ⟨List.mem_of_find?_eq_some found, by simpa using List.find?_some found⟩

theorem get_of_mem (map : EntryMap) (once : map.ids.Nodup) {entry : Entry} (mem : entry ∈ map) :
    map.get entry.id = some entry := by
  cases found : map.get entry.id with
  | none => exact absurd (List.mem_map_of_mem mem) (get_eq_none.mp found)
  | some other =>
      obtain ⟨memOther, sameId⟩ := mem_of_get found
      rw [List.inj_on_of_nodup_map once memOther mem sameId]

theorem insert_of_fresh {map : EntryMap} {entry : Entry} (fresh : entry.id ∉ map.ids) :
    map.insert entry = map ++ [entry] := by
  have kept : map.remove entry.id = map := by
    apply List.filter_eq_self.mpr
    intro other mem
    have different : other.id ≠ entry.id := fun same => fresh (same ▸ List.mem_map_of_mem mem)
    simpa using different
  rw [insert, kept]

theorem get_remove_of_ne {map : EntryMap} {id other : ContractId} (different : other ≠ id) :
    (map.remove id).get other = map.get other := by
  rw [get, remove, List.find?_filter, get]
  congr 1
  funext entry
  by_cases same : entry.id = other <;> simp [same, different]

theorem remove_eq_filter (map : EntryMap) (id : ContractId) (ids : List ContractId) :
    (map.remove id).filter (·.id ∉ ids) = map.filter (·.id ∉ id :: ids) := by
  rw [remove, List.filter_filter]
  apply List.filter_congr
  intro entry _
  simp [Bool.and_comm]

end EntryMap

/-- The first loop fails exactly on an id it meets twice, and else keeps every entry. -/
theorem fillLocked_clean (lockedMap : EntryMap) (failures : List String) (entries : List Entry) :
    ((fillLocked lockedMap failures entries).2 = [] ↔
      failures = [] ∧ (entries.map Entry.id).Nodup ∧
      ∀ entry ∈ entries, entry.id ∉ lockedMap.ids) ∧
    ((fillLocked lockedMap failures entries).2 = [] →
      (fillLocked lockedMap failures entries).1 = lockedMap ++ entries) := by
  induction entries generalizing lockedMap failures with
  | nil => simp [fillLocked]
  | cons entry rest inductionHypothesis =>
      rw [fillLocked]
      by_cases fresh : entry.id ∈ lockedMap.ids
      · have twice : (lockedMap.get entry.id).isSome := by
          rw [Option.isSome_iff_ne_none]
          exact fun absent => EntryMap.get_eq_none.mp absent fresh
        simp [inductionHypothesis, twice, fresh]
      · have once : (lockedMap.get entry.id).isSome = false := by
          rw [EntryMap.get_eq_none.mpr fresh]
          rfl
        rw [EntryMap.insert_of_fresh fresh, once]
        refine ⟨?_, fun clean => by
          rw [(inductionHypothesis _ _).2 clean, List.append_assoc, List.singleton_append]⟩
        rw [(inductionHypothesis _ _).1]
        simp only [EntryMap.ids, List.map_append, List.mem_append, List.map_cons, List.map_nil,
          List.nodup_cons, List.mem_cons, List.not_mem_nil, or_false, forall_eq_or_imp, not_or]
        constructor
        · rintro ⟨clean, nodup, apart⟩
          refine ⟨clean, ⟨?_, nodup⟩, fresh, fun other mem => (apart other mem).1⟩
          intro again
          obtain ⟨other, mem, same⟩ := List.mem_map.mp again
          exact (apart other mem).2 same
        · rintro ⟨clean, ⟨absent, nodup⟩, -, apart⟩
          exact ⟨clean, nodup, fun other mem =>
            ⟨apart other mem, fun same => absent (List.mem_map.mpr ⟨other, mem, same⟩)⟩⟩

variable (crates : Crates)

def Crates.entryFor (traced : Traced) : Option Entry :=
  match traced.shape with
  | .ok text => some (crates.entryOf traced text)
  | .error _ => none

/-- A catalog without duplicates and untraceable entries. -/
structure Crates.Sound (current : List Traced) : Prop where
  once : (current.map Traced.id).Nodup
  traceable : ∀ traced ∈ current, ∃ entry, crates.entryFor traced = some entry

def Crates.catalogEntries (current : List Traced) : List Entry := current.filterMap crates.entryFor

theorem Crates.id_of_entryFor {traced : Traced} {entry : Entry}
    (traceable : crates.entryFor traced = some entry) : entry.id = traced.id := by
  rw [entryFor] at traceable
  split at traceable
  · rw [← Option.some.inj traceable]
    rfl
  · cases traceable

theorem Crates.ids_catalogEntries {current : List Traced} (sound : crates.Sound current) :
    (crates.catalogEntries current).map Entry.id = current.map Traced.id := by
  have traceable := sound.traceable
  clear sound
  induction current with
  | nil => rfl
  | cons traced rest inductionHypothesis =>
      obtain ⟨entry, found⟩ := traceable traced List.mem_cons_self
      rw [catalogEntries, List.filterMap_cons_some found, List.map_cons, List.map_cons,
        crates.id_of_entryFor found]
      exact congrArg _ (inductionHypothesis fun other mem =>
        traceable other (List.mem_cons_of_mem _ mem))

/-- What the loop over `current` needs of its state to add no finding. -/
structure Crates.Fits (state : DiffState) (current : List Traced) : Prop where
  clean : state.report.failures = []
  fresh : ∀ traced ∈ current, traced.id ∉ state.seen
  sound : crates.Sound current
  unchanged : ∀ traced ∈ current, ∀ entry old, crates.entryFor traced = some entry →
    state.lockedMap.get traced.id = some old → old = entry

namespace DiffState

/-- The state after a round that adds no finding. -/
def accept (state : DiffState) (traced : Traced) (entry : Entry) : DiffState where
  report :=
    { state.report with
      entries := state.report.entries ++ [entry]
      added :=
        if (state.lockedMap.get traced.id).isNone ∧ state.report.staleFormat = false then
          state.report.added ++ [entry]
        else state.report.added }
  lockedMap := state.lockedMap.remove traced.id
  seen := traced.id :: state.seen

/-- A round adds a finding, or the catalog entry is new, traceable and as it was locked. -/
theorem take_cases (state : DiffState) (traced : Traced) :
    (∃ failure, (state.take crates traced).report.failures =
      state.report.failures ++ [failure] ∧ ¬ crates.Fits state [traced]) ∨
    ∃ entry, crates.entryFor traced = some entry ∧ traced.id ∉ state.seen ∧
      (∀ old, state.lockedMap.get traced.id = some old → old = entry) ∧
      state.take crates traced = state.accept traced entry := by
  rw [take]
  split
  · next again =>
    exact .inl ⟨_, rfl, fun fits => fits.fresh traced List.mem_cons_self again⟩
  · next fresh =>
    dsimp only
    split
    · next reason broken =>
      refine .inl ⟨_, rfl, fun fits => ?_⟩
      obtain ⟨entry, found⟩ := fits.sound.traceable traced List.mem_cons_self
      rw [Crates.entryFor, broken] at found
      cases found
    · next text traceable =>
      have found : crates.entryFor traced = some (crates.entryOf traced text) := by
        rw [Crates.entryFor, traceable]
      split
      · next old locked =>
        have sameId := (EntryMap.mem_of_get locked).2
        split
        · next changed =>
          refine .inl ⟨_, rfl, fun fits => changed ?_⟩
          rw [fits.unchanged traced List.mem_cons_self _ old found locked]
        · next same =>
          have unchanged : old = crates.entryOf traced text := by
            obtain ⟨name, version, shape⟩ := old
            have sameShape : shape = crates.hash text := not_not.mp same
            obtain ⟨rfl, rfl⟩ := Prod.mk.inj sameId
            rw [sameShape]
            rfl
          refine .inr ⟨_, found, fresh, fun other also => ?_, ?_⟩
          · rw [locked] at also
            rw [← Option.some.inj also, unchanged]
          · simp [accept, push, locked]
      · next absent =>
        refine .inr ⟨_, found, fresh, fun old locked => ?_, ?_⟩
        · rw [absent] at locked
          cases locked
        · split
          · next stale => simp [accept, push, absent, stale]
          · next fixed => simp [accept, push, absent, fixed]

end DiffState

/-- The loop over the catalog adds no finding exactly when every round accepts. -/
theorem Crates.fits_cons (state : DiffState) (traced : Traced) (rest : List Traced) {entry : Entry}
    (found : crates.entryFor traced = some entry) (fresh : traced.id ∉ state.seen)
    (locked : ∀ old, state.lockedMap.get traced.id = some old → old = entry) :
    crates.Fits (state.accept traced entry) rest ↔ crates.Fits state (traced :: rest) := by
  constructor
  · intro fits
    have apart : ∀ other ∈ rest, other.id ≠ traced.id ∧ other.id ∉ state.seen := by
      intro other mem
      simpa [DiffState.accept] using fits.fresh other mem
    refine ⟨fits.clean, ?_, ⟨?_, ?_⟩, ?_⟩
    · exact List.forall_mem_cons.mpr ⟨fresh, fun other mem => (apart other mem).2⟩
    · refine List.nodup_cons.mpr ⟨fun again => ?_, fits.sound.once⟩
      obtain ⟨other, mem, same⟩ := List.mem_map.mp again
      exact (apart other mem).1 same
    · exact List.forall_mem_cons.mpr ⟨⟨entry, found⟩, fits.sound.traceable⟩
    · refine List.forall_mem_cons.mpr
        ⟨fun other old also => ?_, fun other mem second old also => ?_⟩
      · rw [found] at also
        rw [← Option.some.inj also]
        exact locked old
      · intro lockedOld
        refine fits.unchanged other mem second old also ?_
        rw [← lockedOld]
        exact EntryMap.get_remove_of_ne (apart other mem).1
  · intro fits
    obtain ⟨absent, once⟩ := List.nodup_cons.mp fits.sound.once
    have apart : ∀ other ∈ rest, other.id ≠ traced.id :=
      fun other mem same => absent (List.mem_map.mpr ⟨other, mem, same⟩)
    refine ⟨fits.clean, fun other mem => ?_, ⟨once, ?_⟩,
      fun other mem second old also => ?_⟩
    · exact List.not_mem_cons_of_ne_of_not_mem (apart other mem)
        (fits.fresh other (List.mem_cons_of_mem _ mem))
    · exact fun other mem => fits.sound.traceable other (List.mem_cons_of_mem _ mem)
    · intro lockedOld
      refine fits.unchanged other (List.mem_cons_of_mem _ mem) second old also ?_
      rw [← lockedOld]
      exact (EntryMap.get_remove_of_ne (apart other mem)).symm

theorem Crates.fits_head {state : DiffState} {traced : Traced} {rest : List Traced}
    (fits : crates.Fits state (traced :: rest)) : crates.Fits state [traced] := by
  refine ⟨fits.clean, fun other mem => ?_, ⟨by simp, fun other mem => ?_⟩,
    fun other mem => ?_⟩
  · exact fits.fresh other (by simp_all)
  · exact fits.sound.traceable other (by simp_all)
  · exact fits.unchanged other (by simp_all)

theorem Crates.failures_kept (state : DiffState) (current : List Traced)
    (clean : (current.foldl (DiffState.take crates) state).report.failures = []) :
    state.report.failures = [] := by
  induction current generalizing state with
  | nil => exact clean
  | cons traced rest inductionHypothesis =>
      have next := inductionHypothesis _ clean
      obtain ⟨failure, more, -⟩ | ⟨entry, -, -, -, taken⟩ := state.take_cases crates traced
      · rw [more] at next
        simp at next
      · rw [taken] at next
        exact next

theorem Crates.foldl_clean (state : DiffState) (current : List Traced) :
    (current.foldl (DiffState.take crates) state).report.failures = [] ↔
      crates.Fits state current := by
  induction current generalizing state with
  | nil =>
      exact ⟨fun clean => ⟨clean, by simp, ⟨by simp, by simp⟩, by simp⟩,
        fun fits => fits.clean⟩
  | cons traced rest inductionHypothesis =>
      rw [List.foldl_cons]
      obtain ⟨failure, more, unfit⟩ | ⟨entry, found, fresh, locked, taken⟩ :=
        state.take_cases crates traced
      · refine ⟨fun clean => ?_, fun fits => absurd (crates.fits_head fits) unfit⟩
        have kept := crates.failures_kept _ rest clean
        rw [more] at kept
        simp at kept
      · rw [taken, inductionHypothesis, crates.fits_cons state traced rest found fresh locked]

/-- What a loop without findings leaves: the entries of the catalog, the additions
it made unless the format is stale, and the locked entries it did not meet. -/
structure Crates.Finds (state final : DiffState) (current : List Traced) : Prop where
  entries : final.report.entries = state.report.entries ++ crates.catalogEntries current
  lockedMap : final.lockedMap = state.lockedMap.filter (·.id ∉ current.map Traced.id)
  stale : final.report.staleFormat = state.report.staleFormat
  added : (∀ traced ∈ current, (state.lockedMap.get traced.id).isSome) →
    final.report.added = state.report.added

theorem Crates.foldl_finds (state : DiffState) (current : List Traced)
    (fits : crates.Fits state current) :
    crates.Finds state (current.foldl (DiffState.take crates) state) current := by
  induction current generalizing state with
  | nil => exact ⟨by simp [catalogEntries], by simp, rfl, fun _ => rfl⟩
  | cons traced rest inductionHypothesis =>
      rw [List.foldl_cons]
      obtain ⟨failure, -, unfit⟩ | ⟨entry, found, fresh, locked, taken⟩ :=
        state.take_cases crates traced
      · exact absurd (crates.fits_head fits) unfit
      · have fitsRest := (crates.fits_cons state traced rest found fresh locked).mpr fits
        rw [taken]
        obtain ⟨entries, lockedMap, stale, added⟩ := inductionHypothesis _ fitsRest
        refine ⟨?_, ?_, stale, fun all => ?_⟩
        · rw [entries, catalogEntries, catalogEntries, List.filterMap_cons_some found]
          simp [DiffState.accept]
        · rw [lockedMap, List.map_cons]
          exact EntryMap.remove_eq_filter _ _ _
        · have lockedHead : (state.lockedMap.get traced.id).isNone = false := by
            rw [← Option.not_isSome, all traced List.mem_cons_self]
            rfl
          have apart := (List.nodup_cons.mp fits.sound.once).1
          rw [added]
          · simp [DiffState.accept, lockedHead]
          · intro other mem
            have different : other.id ≠ traced.id :=
              fun same => apart (List.mem_map.mpr ⟨other, mem, same⟩)
            rw [DiffState.accept, EntryMap.get_remove_of_ne different]
            exact all other (List.mem_cons_of_mem _ mem)

/-- The lock names no contract twice; a lock of another format is not looked at. -/
def NamedOnce (locked : Option Lock) : Prop :=
  ∀ lock ∈ locked, lock.version = formatVersion → (lock.contract.map Entry.id).Nodup

theorem readLocked_clean (locked : Option Lock) :
    (readLocked locked).report.failures = [] ↔ NamedOnce locked := by
  cases locked with
  | none => simp [readLocked, NamedOnce]
  | some lock =>
      by_cases current : lock.version = formatVersion
      · simp [readLocked, NamedOnce, current, (fillLocked_clean [] [] lock.contract).1,
          EntryMap.ids]
      · simp [readLocked, NamedOnce, current]

theorem readLocked_lockedMap (lock : Lock) (current : lock.version = formatVersion)
    (once : (lock.contract.map Entry.id).Nodup) :
    (readLocked (some lock)).lockedMap = lock.contract ∧
      (readLocked (some lock)).report.staleFormat = false ∧
      (readLocked (some lock)).report.added = [] := by
  have clean : (fillLocked [] [] lock.contract).2 = [] :=
    (fillLocked_clean [] [] lock.contract).1.mpr ⟨rfl, once, by simp [EntryMap.ids]⟩
  have kept := (fillLocked_clean [] [] lock.contract).2 clean
  simpa [readLocked, current] using kept

theorem readLocked_fresh (locked : Option Lock) :
    (readLocked locked).report.entries = [] ∧ (readLocked locked).seen = [] := by
  cases locked with
  | none => exact ⟨rfl, rfl⟩
  | some lock =>
      rw [readLocked]
      split <;> exact ⟨rfl, rfl⟩

theorem Crates.diff_clean {locked : Option Lock} {current : List Traced}
    (clean : (crates.diff locked current).failures = []) :
    crates.Fits (readLocked locked) current ∧
      (crates.diff locked current).entries = Entry.sort (crates.catalogEntries current) := by
  have fits := (crates.foldl_clean (readLocked locked) current).mp clean
  have finds := crates.foldl_finds (readLocked locked) current fits
  refine ⟨fits, ?_⟩
  rw [diff, DiffState.finish, finds.entries, (readLocked_fresh locked).1, List.nil_append]

end AimDb.Contracts
