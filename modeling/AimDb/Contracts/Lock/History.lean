import AimDb.Contracts.Lock.Findings

/-!
# The lock never rewrites history

A call either leaves the file as it was or writes the generated form of the
catalog it was given, and it writes only when no locked shape changed. What was
accepted under `NAME@VERSION` is therefore never replaced while the catalog keeps
that contract.
-/

namespace AimDb.Contracts

instance : Std.Total Entry.le := ⟨fun first second => le_total first.order second.order⟩

instance : IsTrans Entry Entry.le := ⟨fun _ _ _ => le_trans⟩

theorem Entry.sort_perm (entries : List Entry) : (Entry.sort entries).Perm entries :=
  List.perm_insertionSort _ _

@[simp] theorem Entry.mem_sort {entries : List Entry} {entry : Entry} :
    entry ∈ Entry.sort entries ↔ entry ∈ entries := (Entry.sort_perm entries).mem_iff

@[simp] theorem Entry.sort_nil : Entry.sort [] = [] := rfl

def Entry.byId (first second : Entry) : Prop :=
  (toLex (first.name, first.version.toNat) : String ×ₗ ℕ) ≤
    toLex (second.name, second.version.toNat)

instance : DecidableRel Entry.byId := fun _ _ => inferInstanceAs (Decidable (_ ≤ _))

instance : Std.Total Entry.byId := ⟨fun _ _ => le_total _ _⟩

instance : IsTrans Entry Entry.byId := ⟨fun _ _ _ => le_trans⟩

def Entry.sortById (entries : List Entry) : List Entry := entries.insertionSort Entry.byId

theorem Entry.byId_of_le {first second : Entry} (below : Entry.le first second) :
    Entry.byId first second := by
  simp only [Entry.le, Entry.order, Entry.byId, Prod.Lex.le_iff, ofLex_toLex] at below ⊢
  obtain name | ⟨sameName, version | ⟨sameVersion, -⟩⟩ := below
  · exact .inl name
  · exact .inr ⟨sameName, version.le⟩
  · exact .inr ⟨sameName, sameVersion.le⟩

/-- Where no two entries share an id, the shape has no part in the order. -/
theorem Entry.sort_eq_sortById {entries : List Entry} (once : (entries.map Entry.id).Nodup) :
    Entry.sort entries = Entry.sortById entries := by
  have permById : (Entry.sortById entries).Perm entries := List.perm_insertionSort _ _
  refine List.Perm.eq_of_pairwise ?_ ?_ (List.pairwise_insertionSort Entry.byId entries)
    ((Entry.sort_perm entries).trans permById.symm)
  · intro a b memA memB below above
    have same := le_antisymm below above
    simp only [EmbeddingLike.apply_eq_iff_eq, Prod.mk.injEq, UInt32.toNat_inj] at same
    refine List.inj_on_of_nodup_map once (Entry.mem_sort.mp memA) (permById.mem_iff.mp memB) ?_
    exact Prod.ext same.1 same.2
  · exact (List.pairwise_insertionSort Entry.le entries).imp Entry.byId_of_le

theorem fromUTF8?_toUTF8 (text : String) : String.fromUTF8? text.toUTF8 = some text := by
  exact dif_pos text.isValidUTF8

theorem toUTF8_of_fromUTF8? {bytes : ByteArray} {text : String}
    (valid : String.fromUTF8? bytes = some text) : text.toUTF8 = bytes := by
  rw [String.fromUTF8?] at valid
  split at valid
  · rw [← Option.some.inj valid]
    rfl
  · cases valid

theorem readToString_some {file : Option ByteArray} {text : String}
    (read : readToString file = .ok (some text)) : file = some text.toUTF8 := by
  cases file with
  | none => cases read
  | some bytes =>
      rw [readToString] at read
      split at read
      · next valid =>
        obtain rfl := Option.some.inj (Except.ok.inj read)
        rw [toUTF8_of_fromUTF8? valid]
      · cases read

variable (crates : Crates)

def Crates.lockOf (file : Option ByteArray) : Option Lock :=
  match readToString file with
  | .ok (some text) => (crates.parse text).toOption
  | _ => none

/-- The hashes a file of the current format holds for a contract. -/
def Crates.lockedAs (file : Option ByteArray) (id : ContractId) : List String :=
  match crates.lockOf file with
  | some lock =>
      if lock.version = formatVersion then
        (lock.contract.filter (·.id = id)).map Entry.shape else []
  | none => []

def generated (entries : List Entry) : Option ByteArray := some (render entries).toUTF8

theorem Crates.parse_render (entries : List Entry) :
    crates.parse (render entries) = .ok ⟨formatVersion, entries⟩ := by
  rw [parse, crates.fromStr_render]

theorem Crates.lockOf_generated (entries : List Entry) :
    crates.lockOf (generated entries) = some ⟨formatVersion, entries⟩ := by
  rw [lockOf, generated, readToString, fromUTF8?_toUTF8]
  simp [crates.parse_render, Except.toOption]

inductive Crates.Checks (file : Option ByteArray) (call : Call) : Outcome → Prop
  | clean {report : Report} :
      report = crates.diff (crates.lockOf file) call.current → report.failures = [] →
      report.changes = "" → file = generated report.entries →
      (report.staleFormat = true → call.update = true) →
      Checks file call (.ok none, file)
  | written {report : Report} {changes : String} :
      report = crates.diff (crates.lockOf file) call.current → report.failures = [] →
      call.update = true → Checks file call (.ok (some changes), generated report.entries)
  | failed {message : String} : Checks file call (.error message, file)

theorem Crates.checks_checkWith (path : String) (file : Option ByteArray) (call : Call) :
    crates.Checks file call (crates.checkWith path file call) := by
  rw [checkWith]
  cases read : readToString file with
  | error e => exact .failed
  | ok text =>
      dsimp only
      cases parsed : crates.parseAll text with
      | error e => exact .failed
      | ok locked =>
          have lockOf : crates.lockOf file = locked := by
            rw [Crates.lockOf, read]
            cases text with
            | none => exact Except.ok.inj parsed
            | some text =>
                rw [parseAll] at parsed
                cases inner : crates.parse text with
                | error e => rw [inner] at parsed; cases parsed
                | ok lock =>
                    rw [inner] at parsed
                    simpa [Except.toOption, inner] using Except.ok.inj parsed
          rw [← lockOf]
          dsimp only
          rw [Report.conclude]
          split
          · exact .failed
          · next clean =>
            split
            · exact .failed
            · next accepted =>
              split
              · next same =>
                simp only [Bool.and_eq_true, decide_eq_true_eq, Bool.not_eq_eq_eq_not,
                  Bool.not_true, Bool.and_eq_false_imp, decide_eq_false_iff_not, not_not] at same
                obtain ⟨unchanged, inForm⟩ := same
                have form := inForm unchanged
                rw [form] at read
                exact .clean rfl (not_not.mp clean) unchanged (readToString_some read)
                  (fun stale => by simpa [stale] using accepted)
              · split
                · exact .failed
                · next update =>
                  split
                  · exact .failed
                  · exact .written rfl (not_not.mp clean) (by simpa using update)

theorem Crates.checkWith_generated (path : String) {current : List Traced}
    (sound : crates.Sound current) (call : Call) (same : call.current = current) :
    let file := generated (Entry.sort (crates.catalogEntries current))
    crates.checkWith path file call = (.ok none, file) := by
  dsimp only
  have perm := Entry.sort_perm (crates.catalogEntries current)
  have ids : ((Entry.sort (crates.catalogEntries current)).map Entry.id).Nodup := by
    rw [(perm.map Entry.id).nodup_iff, crates.ids_catalogEntries sound]
    exact sound.once
  obtain ⟨lockedMap, fixed, unadded⟩ := readLocked_lockedMap
    ⟨formatVersion, Entry.sort (crates.catalogEntries current)⟩ rfl ids
  have fits : crates.Fits
      (readLocked (some ⟨formatVersion,
          Entry.sort (crates.catalogEntries current)⟩)) current := by
    refine ⟨(readLocked_clean _).mpr ?_, ?_, sound, ?_⟩
    · intro lock isLock _
      rw [← Option.some.inj isLock]
      exact ids
    · intro traced _
      rw [(readLocked_fresh _).2]
      exact List.not_mem_nil
    · intro traced mem entry old found locked
      rw [lockedMap] at locked
      have mine : entry ∈ Entry.sort (crates.catalogEntries current) :=
        Entry.mem_sort.mpr (List.mem_filterMap.mpr ⟨traced, mem, found⟩)
      have looked := EntryMap.get_of_mem (Entry.sort _) ids mine
      rw [crates.id_of_entryFor found, locked] at looked
      exact Option.some.inj looked
  have finds := crates.foldl_finds _ current fits
  have clean := (crates.foldl_clean _ current).mpr fits
  have added : (current.foldl (DiffState.take crates)
      (readLocked (some ⟨formatVersion,
        Entry.sort (crates.catalogEntries current)⟩))).report.added = [] := by
    rw [finds.added, unadded]
    intro traced mem
    obtain ⟨entry, found⟩ := sound.traceable traced mem
    have mine : entry ∈ Entry.sort (crates.catalogEntries current) :=
      Entry.mem_sort.mpr (List.mem_filterMap.mpr ⟨traced, mem, found⟩)
    rw [lockedMap, ← crates.id_of_entryFor found, EntryMap.get_of_mem (Entry.sort _) ids mine]
    rfl
  have removed : (current.foldl (DiffState.take crates)
      (readLocked (some ⟨formatVersion,
        Entry.sort (crates.catalogEntries current)⟩))).lockedMap = [] := by
    rw [finds.lockedMap, lockedMap, List.filter_eq_nil_iff]
    intro entry mem
    have listed := List.mem_map_of_mem (f := Entry.id) (Entry.mem_sort.mp mem)
    rw [crates.ids_catalogEntries sound] at listed
    simpa using listed
  have parsed : crates.parseAll (some (render (Entry.sort (crates.catalogEntries current))))
      = .ok (some ⟨formatVersion, Entry.sort (crates.catalogEntries current)⟩) := by
    rw [parseAll, crates.parse_render]
    rfl
  have entries := finds.entries
  rw [(readLocked_fresh _).1, List.nil_append] at entries
  rw [checkWith, generated, readToString, fromUTF8?_toUTF8]
  dsimp only
  rw [parsed, same]
  simp only [diff, Report.conclude, DiffState.finish, clean, added, removed, entries,
    finds.stale, fixed, Report.changes]
  simp

theorem Crates.checkWith_ok {path : String} {file : Option ByteArray} {call : Call}
    (ok : ∃ changes, (crates.checkWith path file call).1 = .ok changes) :
    crates.Sound call.current ∧ (crates.checkWith path file call).2 =
      generated (Entry.sort (crates.catalogEntries call.current)) := by
  obtain ⟨changes, ok⟩ := ok
  have checks := crates.checks_checkWith path file call
  generalize crates.checkWith path file call = outcome at checks ok
  cases checks with
  | clean isReport clean _ inForm _ =>
      rw [isReport] at clean inForm
      obtain ⟨fits, entries⟩ := crates.diff_clean clean
      exact ⟨fits.sound, by rw [← entries]; exact inForm⟩
  | written isReport clean _ =>
      rw [isReport] at clean ⊢
      obtain ⟨fits, entries⟩ := crates.diff_clean clean
      exact ⟨fits.sound, by rw [← entries]⟩
  | failed => cases ok

theorem Crates.lockedAs_generated (entries : List Entry) (id : ContractId) :
    crates.lockedAs (generated entries) id = (entries.filter (·.id = id)).map Entry.shape := by
  rw [lockedAs, crates.lockOf_generated]
  simp

theorem filter_id_of_mem {entries : List Entry} (once : (entries.map Entry.id).Nodup)
    {entry : Entry} (mem : entry ∈ entries) :
    entries.filter (·.id = entry.id) = [entry] := by
  induction entries with
  | nil => cases mem
  | cons first rest inductionHypothesis =>
      obtain ⟨absent, onceRest⟩ := List.nodup_cons.mp once
      have none : ∀ other ∈ rest, other.id ≠ first.id :=
        fun other mem same => absent (List.mem_map.mpr ⟨other, mem, same⟩)
      obtain rfl | mem := List.mem_cons.mp mem
      · rw [List.filter_cons_of_pos (by simp), List.filter_eq_nil_iff.mpr]
        intro other mem
        simpa using none other mem
      · have different : first.id ≠ entry.id := fun same => none entry mem same.symm
        rw [List.filter_cons_of_neg (by simpa using different), inductionHypothesis onceRest mem]

theorem Crates.lockedAs_step (path : String) (file : Option ByteArray) (call : Call)
    {id : ContractId} (listed : id ∈ call.current.map Traced.id)
    (locked : crates.lockedAs file id ≠ []) :
    crates.lockedAs (crates.checkWith path file call).2 id = crates.lockedAs file id := by
  have checks := crates.checks_checkWith path file call
  generalize crates.checkWith path file call = outcome at checks
  cases checks with
  | clean => rfl
  | failed => rfl
  | written isReport clean _ =>
      rw [isReport] at clean ⊢
      obtain ⟨fits, entries⟩ := crates.diff_clean clean
      rw [entries, crates.lockedAs_generated]
      -- the lock the contract is in has the current format
      rw [lockedAs] at locked ⊢
      cases isLock : crates.lockOf file with
      | none => simp [isLock] at locked
      | some lock =>
          rw [isLock] at fits locked
          by_cases current : lock.version = formatVersion
          · have once := (readLocked_clean (some lock)).mp fits.clean lock rfl current
            simp only [current, if_true, ne_eq, List.map_eq_nil_iff] at locked ⊢
            obtain ⟨old, memOld⟩ := List.exists_mem_of_ne_nil _ locked
            obtain ⟨memOld, isId⟩ : old ∈ lock.contract ∧ old.id = id := by
              simpa using memOld
            obtain ⟨traced, memTraced, tracedId⟩ := List.mem_map.mp listed
            obtain ⟨entry, found⟩ := fits.sound.traceable traced memTraced
            have same : old = entry := by
              refine fits.unchanged traced memTraced entry old found ?_
              rw [(readLocked_lockedMap _ current once).1, tracedId, ← isId]
              exact EntryMap.get_of_mem _ once memOld
            have kept : entry ∈ Entry.sort (crates.catalogEntries call.current) :=
              Entry.mem_sort.mpr (List.mem_filterMap.mpr ⟨traced, memTraced, found⟩)
            have onceKept :
                ((Entry.sort (crates.catalogEntries call.current)).map Entry.id).Nodup := by
              rw [((Entry.sort_perm _).map Entry.id).nodup_iff,
                crates.ids_catalogEntries fits.sound]
              exact fits.sound.once
            rw [← isId, filter_id_of_mem once memOld, same, filter_id_of_mem onceKept kept]
          · simp [current] at locked

theorem Crates.lockedAs_afterCalls (path : String) (file : Option ByteArray) (calls : List Call)
    {id : ContractId} (listed : ∀ call ∈ calls, id ∈ call.current.map Traced.id)
    (locked : crates.lockedAs file id ≠ []) :
    crates.lockedAs (crates.afterCalls path file calls) id = crates.lockedAs file id := by
  induction calls generalizing file with
  | nil => rfl
  | cons call rest inductionHypothesis =>
      have step := crates.lockedAs_step path file call (listed call List.mem_cons_self) locked
      rw [afterCalls, List.foldl_cons, ← step]
      apply inductionHypothesis
      · exact fun other mem => listed other (List.mem_cons_of_mem _ mem)
      · rw [step]
        exact locked

structure Crates.NeverRewritesHistory (path : String) : Prop where
  failure : ∀ file call message, (crates.checkWith path file call).1 = .error message →
    (crates.checkWith path file call).2 = file
  /-- Once a contract is locked, calls whose catalogs all list it keep its hash. -/
  keeps : ∀ file before after id,
    (∀ call ∈ before ++ after, id ∈ call.current.map Traced.id) →
    crates.lockedAs (crates.afterCalls path file before) id ≠ [] →
    crates.lockedAs (crates.afterCalls path file (before ++ after)) id =
      crates.lockedAs (crates.afterCalls path file before) id
  /-- After a successful update the same catalog has nothing to report. -/
  settles : ∀ file call changes, call.update = true →
    (crates.checkWith path file call).1 = .ok changes →
    ∀ next : Call, next.current = call.current →
      (crates.checkWith path (crates.checkWith path file call).2 next).1 = .ok none
  passes : ∀ file call, call.update = false →
    ((crates.checkWith path file call).1 = .ok none ↔
      (call.current.map Traced.id).Nodup ∧
      (∀ traced ∈ call.current, ∃ text, traced.shape = .ok text) ∧
      file = some (render (Entry.sortById (crates.catalogEntries call.current))).toUTF8)

theorem Crates.sound_iff (current : List Traced) :
    crates.Sound current ↔
      (current.map Traced.id).Nodup ∧
      ∀ traced ∈ current, ∃ text, traced.shape = .ok text := by
  have traceable (traced : Traced) :
      (∃ entry, crates.entryFor traced = some entry) ↔ ∃ text, traced.shape = .ok text := by
    rw [entryFor]
    split <;> simp_all
  constructor
  · intro sound
    exact ⟨sound.once, fun traced mem => (traceable traced).mp (sound.traceable traced mem)⟩
  · rintro ⟨once, shapes⟩
    exact ⟨once, fun traced mem => (traceable traced).mpr (shapes traced mem)⟩

theorem Crates.sort_catalogEntries {current : List Traced} (sound : crates.Sound current) :
    Entry.sort (crates.catalogEntries current) =
        Entry.sortById (crates.catalogEntries current) := by
  apply Entry.sort_eq_sortById
  rw [crates.ids_catalogEntries sound]
  exact sound.once

theorem Crates.neverRewritesHistory (path : String) : crates.NeverRewritesHistory path where
  failure := by
    intro file call message failed
    have checks := crates.checks_checkWith path file call
    generalize crates.checkWith path file call = outcome at checks failed
    cases checks with
    | clean => rfl
    | failed => rfl
    | written => cases failed
  keeps := by
    intro file before after id listed locked
    rw [afterCalls, List.foldl_append]
    exact crates.lockedAs_afterCalls path _ after
      (fun call mem => listed call (List.mem_append_right _ mem)) locked
  settles := by
    intro file call changes _ ok next same
    obtain ⟨sound, form⟩ := crates.checkWith_ok ⟨changes, ok⟩
    rw [form, crates.checkWith_generated path sound next same]
  passes := by
    intro file call still
    constructor
    · intro ok
      have checks := crates.checks_checkWith path file call
      obtain ⟨sound, form⟩ := crates.checkWith_ok ⟨none, ok⟩
      obtain ⟨once, shapes⟩ := (crates.sound_iff call.current).mp sound
      refine ⟨once, shapes, ?_⟩
      rw [crates.sort_catalogEntries sound] at form
      generalize crates.checkWith path file call = outcome at checks form ok
      cases checks with
      | clean => exact form
      | written => cases ok
      | failed => cases ok
    · rintro ⟨once, shapes, form⟩
      have sound := (crates.sound_iff call.current).mpr ⟨once, shapes⟩
      rw [← crates.sort_catalogEntries sound] at form
      rw [form]
      exact congrArg Prod.fst (crates.checkWith_generated path sound call rfl)

end AimDb.Contracts
