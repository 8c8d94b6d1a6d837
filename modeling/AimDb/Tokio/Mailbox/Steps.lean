import AimDb.Tokio.Mailbox

/-!
# What each section does to the registry
-/

namespace AimDb.Tokio.Mailbox

open Transition

variable {T W : Type} {threads : Threads T W} {log : List (Event T W)} {reader : ℕ}

namespace Registry

theorem start : Registry (Threads.new : Threads T W) [] where
  scratch := rfl
  keys := List.nodup_nil
  fresh own := absurd own (by simp [keyOf, Threads.new])
  apart own := absurd own (by simp [keyOf, Threads.new])
  owned _ mem := absurd mem List.not_mem_nil
  idle some := absurd rfl some
  waiting waits := absurd waits not_since_nil

theorem push (registry : Registry threads log) (value : T) :
    Registry
      { threads with
        state := (threads.state.push value).1
        pushes := threads.pushes ++ [(threads.state.push value).2] }
      (log ++ [.pushed value]) where
  scratch := rfl
  keys := by
    change (threads.state.wakeScratch.map Prod.fst).Nodup
    rw [registry.scratch]
    exact List.nodup_nil
  fresh := registry.fresh
  apart := registry.apart
  owned entry mem := by
    change entry ∈ threads.state.wakeScratch at mem
    rw [registry.scratch] at mem
    exact absurd mem List.not_mem_nil
  idle some := absurd registry.scratch some
  waiting waits := by
    obtain ⟨key, own, mem⟩ := registry.waiting (waits.of_snoc (by simp)).1
    refine ⟨key, own, ?_⟩
    simp only [Threads.toWake, MailboxState.push, List.flatten_append, List.flatten_singleton,
      List.mem_append] at mem ⊢
    tauto

theorem wake (registry : Registry threads log) {thread : ℕ} {first : ℕ × W}
    {rest : List (ℕ × W)} (found : threads.pushes[thread]? = some (first :: rest)) :
    Registry { threads with pushes := threads.pushes.set thread rest }
      (log ++ [.woken first.2]) where
  scratch := registry.scratch
  keys := registry.keys
  fresh := registry.fresh
  apart := registry.apart
  owned entry mem := by
    obtain ⟨reader, own, parked⟩ := registry.owned entry mem
    exact ⟨reader, own, parked.snoc (by simp [Event.about])⟩
  idle := registry.idle
  waiting waits := by
    obtain ⟨waited, -, unwoken⟩ := waits.of_snoc (by simp)
    obtain ⟨key, own, mem⟩ := registry.waiting waited
    refine ⟨key, own, ?_⟩
    simp only [Threads.toWake, List.mem_append] at mem ⊢
    rcases mem with listed | pushed | closed
    · exact .inl listed
    · rcases mem_flatten_set found pushed with rfl | other
      · exact absurd rfl unwoken
      · exact .inr (.inl other)
    · exact .inr (.inr closed)

theorem recycle (registry : Registry threads log) {thread : ℕ}
    (found : threads.pushes[thread]? = some []) :
    Registry
      { threads with
        state := threads.state.recycle []
        pushes := threads.pushes.eraseIdx thread }
      log where
  scratch := rfl
  keys := registry.keys
  fresh := registry.fresh
  apart := registry.apart
  owned := registry.owned
  idle := registry.idle
  waiting waits := by
    obtain ⟨key, own, mem⟩ := registry.waiting waits
    refine ⟨key, own, ?_⟩
    rw [Threads.toWake, flatten_eraseIdx found]
    exact mem

theorem subscribe (registry : Registry threads log) :
    Registry { threads with readers := threads.readers ++ [some ⟨none⟩] } log where
  scratch := registry.scratch
  keys := registry.keys
  fresh := by
    intro reader key own
    rw [keyOf_append] at own
    exact registry.fresh own
  apart := by
    intro reader other key own others
    rw [keyOf_append] at own others
    exact registry.apart own others
  owned entry mem := by
    obtain ⟨reader, own, parked⟩ := registry.owned entry mem
    exact ⟨reader, by rw [keyOf_append]; exact own, parked⟩
  idle := registry.idle
  waiting waits := by
    obtain ⟨key, own, mem⟩ := registry.waiting waits
    exact ⟨key, by rw [keyOf_append]; exact own, mem⟩

/-- An entry stands for an empty, open slot, so a read that finds more finds no entry. -/
theorem wakers_eq_nil (registry : Registry threads log)
    (busy : threads.state.slot ≠ none ∨ threads.state.closed = true) :
    threads.state.wakers = [] := by
  by_contra some
  obtain ⟨empty, opened⟩ := registry.idle some
  rcases busy with full | closed
  · exact full empty
  · exact Bool.noConfusion (opened.symm.trans closed)

theorem keyOf_set_same {own : Reader} (found : threads.readers[reader]?.join = some own)
    (other : ℕ) :
    keyOf (threads.readers.set reader (some ⟨own.wakerKey⟩)) other =
      keyOf threads.readers other := by
  by_cases same : reader = other
  · subst same
    rw [keyOf_set_self (lt_of_join found), keyOf_of_join found]
    rfl
  · exact keyOf_set_of_ne same

theorem pollResolved (registry : Registry threads log) {own : Reader}
    (found : threads.readers[reader]?.join = some own) (waker : W) {outcome : Outcome T}
    (busy : threads.state.slot ≠ none ∨ threads.state.closed = true)
    (ready : outcome ≠ .pending)
    (slot : Option T) :
    Registry
      { threads with
        state := { threads.state with slot := slot }
        readers := threads.readers.set reader (some ⟨own.wakerKey⟩) }
      (log ++ [.polled reader waker outcome]) where
  scratch := registry.scratch
  keys := registry.keys
  fresh := by
    intro other key theirs
    rw [keyOf_set_same found] at theirs
    exact registry.fresh theirs
  apart := by
    intro first second key theirs others
    rw [keyOf_set_same found] at theirs others
    exact registry.apart theirs others
  owned entry mem := by
    change entry ∈ threads.state.wakers at mem
    rw [registry.wakers_eq_nil busy] at mem
    exact absurd mem List.not_mem_nil
  idle some := absurd (registry.wakers_eq_nil busy) some
  waiting waits := by
    have differs : ∀ other waker', Event.polled reader waker outcome ≠
        .polled other waker' (.pending : Outcome T) := by
      intro other waker' same
      exact ready (Event.polled.inj same).2.2
    obtain ⟨key, theirs, mem⟩ := registry.waiting (waits.of_snoc (differs _ _)).1
    exact ⟨key, by rw [keyOf_set_same found]; exact theirs, mem⟩

theorem tryRecv_state (state : MailboxState T W) :
    state.tryRecv.2 = { state with slot := none } := by
  obtain ⟨slot, closed, wakers, wakeScratch, nextKey⟩ := state
  cases slot with
  | none => rfl
  | some value => rfl

theorem tryRecv (registry : Registry threads log) (reader : ℕ) :
    Registry { threads with state := threads.state.tryRecv.2 }
      (log ++ [.tried reader threads.state.tryRecv.1]) := by
  rw [tryRecv_state]
  exact
    { scratch := registry.scratch
      keys := registry.keys
      fresh := registry.fresh
      apart := registry.apart
      owned := fun entry mem => by
        obtain ⟨owner, own, parked⟩ := registry.owned entry mem
        exact ⟨owner, own, parked.snoc (by simp [Event.about])⟩
      idle := fun some => ⟨rfl, (registry.idle some).2⟩
      waiting := fun waits => registry.waiting (waits.of_snoc (by simp)).1 }

theorem pollRenewed (registry : Registry threads log) {key : ℕ}
    (found : threads.readers[reader]?.join = some ⟨some key⟩) (waker : W)
    (listed : key ∈ threads.state.wakers.map Prod.fst) :
    Registry
      { threads with
        state := { threads.state with
          wakers := threads.state.wakers.map fun entry =>
            if entry.1 = key then (key, waker) else entry }
        readers := threads.readers.set reader (some ⟨some key⟩) }
      (log ++ [.polled reader waker .pending]) where
  scratch := registry.scratch
  keys := by
    have same : (threads.state.wakers.map fun entry =>
        if entry.1 = key then (key, waker) else entry).map Prod.fst =
          threads.state.wakers.map Prod.fst := by
      rw [List.map_map]
      refine List.map_congr_left fun entry _ => ?_
      by_cases same : entry.1 = key
      · simp [same]
      · simp [same]
    change ((threads.state.wakers.map fun entry =>
      if entry.1 = key then (key, waker) else entry).map Prod.fst).Nodup
    rw [same]
    exact registry.keys
  fresh := by
    intro other theirs own
    rw [keyOf_set_same found] at own
    exact registry.fresh own
  apart := by
    intro first second theirs own others
    rw [keyOf_set_same found] at own others
    exact registry.apart own others
  owned entry mem := by
    obtain ⟨old, present, rfl⟩ := List.mem_map.mp mem
    by_cases same : old.1 = key
    · rw [if_pos same]
      exact ⟨reader, by rw [keyOf_set_same found]; exact keyOf_of_join found,
        since_snoc_self log⟩
    · obtain ⟨owner, own, parked⟩ := registry.owned old present
      rw [if_neg same]
      refine ⟨owner, by rw [keyOf_set_same found]; exact own, parked.snoc ?_⟩
      rintro about
      obtain rfl : reader = owner := Option.some.inj about
      rw [keyOf_of_join found] at own
      exact same (Option.some.inj own).symm
  idle _ := registry.idle (by
    rintro none
    rw [none] at listed
    exact absurd listed List.not_mem_nil)
  waiting := by
    intro other theirs waits
    rcases Since.of_snoc waits with now | ⟨waited, elsewhere, -⟩
    · obtain ⟨rfl, rfl, -⟩ := Event.polled.inj now
      refine ⟨key, by rw [keyOf_set_same found]; exact keyOf_of_join found, ?_⟩
      obtain ⟨entry, present, same⟩ := List.mem_map.mp listed
      exact List.mem_append_left _ (List.mem_map.mpr ⟨entry, present, if_pos same⟩)
    · obtain ⟨held, own, mem⟩ := registry.waiting waited
      refine ⟨held, by rw [keyOf_set_same found]; exact own, ?_⟩
      rcases List.mem_append.mp mem with present | taken
      · refine List.mem_append_left _ (List.mem_map.mpr ⟨_, present, if_neg ?_⟩)
        rintro same
        obtain rfl : held = key := same
        exact elsewhere (congrArg some (registry.apart (keyOf_of_join found) own))
      · exact List.mem_append_right _ taken

/-- A pending poll without an entry registers under a key nobody had. -/
theorem pollRegistered (registry : Registry threads log) {own : Reader}
    (found : threads.readers[reader]?.join = some own) (waker : W)
    (empty : threads.state.slot = none) (opened : threads.state.closed = false)
    (unlisted : ∀ key, own.wakerKey = some key → key ∉ threads.state.wakers.map Prod.fst) :
    Registry
      { threads with
        state := { threads.state with
          nextKey := threads.state.nextKey + 1
          wakers := threads.state.wakers ++ [(threads.state.nextKey, waker)] }
        readers := threads.readers.set reader (some ⟨some threads.state.nextKey⟩) }
      (log ++ [.polled reader waker .pending]) := by
  have bound := lt_of_join found
  have self : keyOf (threads.readers.set reader (some ⟨some threads.state.nextKey⟩)) reader =
      some threads.state.nextKey := keyOf_set_self bound
  have unused : ∀ other, keyOf threads.readers other ≠ some threads.state.nextKey :=
    fun other theirs => absurd (registry.fresh theirs) (Nat.lt_irrefl _)
  exact
    { scratch := registry.scratch
      keys := by
        rw [List.map_append, List.map_singleton]
        refine List.nodup_append.mpr ⟨registry.keys, List.pairwise_singleton _ _, ?_⟩
        rintro key mem _ new rfl
        obtain ⟨entry, present, rfl⟩ := List.mem_map.mp mem
        obtain ⟨owner, theirs, -⟩ := registry.owned entry present
        exact unused owner (theirs.trans (congrArg some (List.mem_singleton.mp new)))
      fresh := by
        intro other key theirs
        by_cases same : reader = other
        · subst same
          obtain rfl := Option.some.inj (self.symm.trans theirs)
          exact Nat.lt_succ_self _
        · rw [keyOf_set_of_ne same] at theirs
          exact Nat.lt_succ_of_lt (registry.fresh theirs)
      apart := by
        intro first second key ours theirs
        by_cases isFirst : reader = first
        · by_cases isSecond : reader = second
          · exact isFirst.symm.trans isSecond
          · subst isFirst
            rw [keyOf_set_of_ne isSecond, ← self.symm.trans ours] at theirs
            exact absurd theirs (unused second)
        · by_cases isSecond : reader = second
          · subst isSecond
            rw [keyOf_set_of_ne isFirst, ← self.symm.trans theirs] at ours
            exact absurd ours (unused first)
          · rw [keyOf_set_of_ne isFirst] at ours
            rw [keyOf_set_of_ne isSecond] at theirs
            exact registry.apart ours theirs
      owned := by
        intro entry mem
        rcases List.mem_append.mp mem with present | new
        · obtain ⟨owner, theirs, parked⟩ := registry.owned entry present
          have elsewhere : reader ≠ owner := by
            rintro rfl
            rw [keyOf_of_join found] at theirs
            exact unlisted _ theirs (List.mem_map_of_mem present)
          refine ⟨owner, by rw [keyOf_set_of_ne elsewhere]; exact theirs, parked.snoc ?_⟩
          exact fun about => elsewhere (Option.some.inj about)
        · obtain rfl := List.mem_singleton.mp new
          exact ⟨reader, self, since_snoc_self log⟩
      idle := fun _ => ⟨empty, opened⟩
      waiting := by
        intro other theirs waits
        rcases Since.of_snoc waits with now | ⟨waited, elsewhere, -⟩
        · obtain ⟨rfl, rfl, -⟩ := Event.polled.inj now
          exact ⟨_, self, List.mem_append_left _
            (List.mem_append_right _ (List.mem_singleton_self _))⟩
        · obtain ⟨held, own, mem⟩ := registry.waiting waited
          have differs : reader ≠ other := fun same => elsewhere (congrArg some same)
          refine ⟨held, by rw [keyOf_set_of_ne differs]; exact own, ?_⟩
          rcases List.mem_append.mp mem with present | taken
          · exact List.mem_append_left _ (List.mem_append_left _ present)
          · exact List.mem_append_right _ taken }

theorem keyOf_set_none {other key : ℕ}
    (theirs : keyOf (threads.readers.set reader none) other = some key) :
    reader ≠ other ∧ keyOf threads.readers other = some key := by
  by_cases same : reader = other
  · subst same
    by_cases present : reader < threads.readers.length
    · rw [keyOf_set_self present] at theirs
      cases theirs
    · rw [keyOf, List.getElem?_eq_none (by simpa using present)] at theirs
      cases theirs
  · rw [keyOf_set_of_ne same] at theirs
    exact ⟨same, theirs⟩

theorem dropReader (registry : Registry threads log) {own : Reader}
    (found : threads.readers[reader]?.join = some own) :
    Registry
      { threads with
        state := { threads.state with
          wakers := threads.state.wakers.filter fun entry => own.wakerKey ≠ some entry.1 }
        readers := threads.readers.set reader none }
      (log ++ [.dropped reader]) where
  scratch := registry.scratch
  keys := registry.keys.sublist (List.filter_sublist.map _)
  fresh theirs := registry.fresh (keyOf_set_none theirs).2
  apart ours theirs := registry.apart (keyOf_set_none ours).2 (keyOf_set_none theirs).2
  owned entry mem := by
    obtain ⟨present, kept⟩ := List.mem_filter.mp mem
    obtain ⟨owner, theirs, parked⟩ := registry.owned entry present
    have elsewhere : reader ≠ owner := by
      rintro rfl
      rw [keyOf_of_join found] at theirs
      simp [theirs] at kept
    refine ⟨owner, by rw [keyOf_set_of_ne elsewhere]; exact theirs, parked.snoc ?_⟩
    exact fun about => elsewhere (Option.some.inj about)
  idle some := registry.idle fun none => some (by
    change threads.state.wakers.filter _ = []
    rw [none]
    rfl)
  waiting := by
    intro other theirs waits
    obtain ⟨waited, elsewhere, -⟩ := waits.of_snoc (by simp)
    obtain ⟨key, held, mem⟩ := registry.waiting waited
    have differs : reader ≠ other := fun same => elsewhere (congrArg some same)
    refine ⟨key, by rw [keyOf_set_of_ne differs]; exact held, ?_⟩
    rcases List.mem_append.mp mem with present | taken
    · refine List.mem_append_left _ (List.mem_filter.mpr ⟨present, ?_⟩)
      rw [decide_eq_true_iff]
      intro same
      exact differs (registry.apart ((keyOf_of_join found).trans same) held)
    · exact List.mem_append_right _ taken

theorem dropBuffer (registry : Registry threads log) (opened : threads.closing = none) :
    Registry
      { threads with
        state := threads.state.close.1
        closing := some threads.state.close.2 }
      (log ++ [.closed]) where
  scratch := registry.scratch
  keys := List.nodup_nil
  fresh := registry.fresh
  apart := registry.apart
  owned _ mem := absurd mem List.not_mem_nil
  idle some := absurd rfl some
  waiting waits := by
    obtain ⟨key, own, mem⟩ := registry.waiting (waits.of_snoc (by simp)).1
    refine ⟨key, own, ?_⟩
    simp only [Threads.toWake, MailboxState.close, opened, Option.getD_none, Option.getD_some,
      List.append_nil, List.mem_append] at mem ⊢
    tauto

theorem wakeClosed (registry : Registry threads log) {first : ℕ × W} {rest : List (ℕ × W)}
    (found : threads.closing = some (first :: rest)) :
    Registry { threads with closing := some rest } (log ++ [.woken first.2]) where
  scratch := registry.scratch
  keys := registry.keys
  fresh := registry.fresh
  apart := registry.apart
  owned entry mem := by
    obtain ⟨reader, own, parked⟩ := registry.owned entry mem
    exact ⟨reader, own, parked.snoc (by simp [Event.about])⟩
  idle := registry.idle
  waiting waits := by
    obtain ⟨waited, -, unwoken⟩ := waits.of_snoc (by simp)
    obtain ⟨key, own, mem⟩ := registry.waiting waited
    refine ⟨key, own, ?_⟩
    simp only [Threads.toWake, found, Option.getD_some, List.mem_append, List.mem_cons] at mem ⊢
    rcases mem with listed | pushed | rfl | closed
    · exact .inl listed
    · exact .inr (.inl pushed)
    · exact absurd rfl unwoken
    · exact .inr (.inr closed)

end Registry

end AimDb.Tokio.Mailbox
