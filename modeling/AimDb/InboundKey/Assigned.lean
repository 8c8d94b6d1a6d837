import AimDb.InboundKey
import Mathlib.Data.List.Basic

/-!
# What keys stand for

The table is the list of the names that got a key, in the order in which they first did.
-/

namespace AimDb.InboundKey

variable {Thread : Type} {s after : Shared Thread} {log events : List (Event Thread)}
  {table : KeyTable} {capacity : NonZeroU16} {thread : Thread} {name : String} {id : KeyId}

theorem KeyId.toNat_get (id : KeyId) : id.number.get.toNat = id.index + 1 := by
  have pos : 0 < id.number.get.toNat := by
    apply Nat.pos_of_ne_zero
    intro zero
    exact id.number.nonzero (UInt16.toNat.inj zero)
  exact (Nat.sub_add_cancel pos).symm

theorem KeyId.index_injective {id other : KeyId} (same : id.index = other.index) : id = other := by
  have numbers : id.number.get = other.number.get := by
    apply UInt16.toNat.inj
    rw [id.toNat_get, other.toNat_get, same]
  obtain ⟨⟨get, nonzero⟩⟩ := id
  obtain ⟨⟨got, positive⟩⟩ := other
  cases numbers
  rfl

theorem tryFrom_toNat {n : ℕ} (within : n < 2 ^ 16) : (UInt16.ofNat n).toNat = n :=
  UInt16.toNat_ofNat_of_lt' within

theorem KeyId.exists_index {index : ℕ} (within : index + 1 < 2 ^ 16) :
    ∃ id : KeyId, id.number.get = UInt16.ofNat (index + 1) ∧ id.index = index := by
  have value := tryFrom_toNat within
  generalize UInt16.ofNat (index + 1) = number at value ⊢
  have nonzero : number ≠ 0 := by
    rintro rfl
    cases value
  refine ⟨⟨⟨number, nonzero⟩⟩, rfl, ?_⟩
  rw [KeyId.index, value, Nat.add_sub_cancel]

theorem nextId_of_room (room : table.names.length < table.capacity.get.toNat) :
    ∃ id, table.nextId = some id ∧ id.index = table.names.length := by
  have within : table.names.length + 1 < 2 ^ 16 :=
    Nat.lt_of_le_of_lt room table.capacity.get.toNat_lt
  obtain ⟨id, isNumber, isIndex⟩ := KeyId.exists_index within
  have fits : id.number.get ≤ table.capacity.get := by
    rw [UInt16.le_iff_toNat_le, id.toNat_get, isIndex]
    exact room
  refine ⟨id, ?_, isIndex⟩
  rw [KeyTable.nextId, tryFrom, if_pos within, ← isNumber, Option.filter_some,
    if_pos (decide_eq_true fits), Option.bind_some, NonZeroU16.new, dif_neg id.number.nonzero]
  rfl

theorem nextId_of_full (full : table.capacity.get.toNat ≤ table.names.length) :
    table.nextId = none := by
  unfold KeyTable.nextId tryFrom
  by_cases within : table.names.length + 1 < 2 ^ 16
  · have value := tryFrom_toNat within
    rw [if_pos within]
    generalize UInt16.ofNat (table.names.length + 1) = number at value ⊢
    have above : ¬ number ≤ table.capacity.get := by
      rw [UInt16.le_iff_toNat_le, value]
      exact Nat.not_le_of_lt (Nat.lt_succ_of_le full)
    simp [above]
  · rw [if_neg within]
    rfl

def learns (known : List String) : Event Thread → List String
  | .keyed _ name (some _) => if name ∈ known then known else known ++ [name]
  | _ => known

/-- The names that got a key, in the order in which they first did. -/
def firsts (log : List (Event Thread)) : List String := log.foldl learns []

theorem firsts_append (log events : List (Event Thread)) :
    firsts (log ++ events) = events.foldl learns (firsts log) := List.foldl_append

def Event.isRefusal : Event Thread → Bool
  | .keyed _ _ none => true
  | _ => false

/-- What a call answers after a name got its key. -/
def Event.Agrees (earlier later : Event Thread) : Prop :=
  ∀ thread name id, earlier = .keyed thread name (some id) →
    (∀ other result, later = .keyed other name result → result = some id) ∧
      ∀ other result, later = .named other id result → result = some name

structure Assigned (capacity : NonZeroU16) (s : Shared Thread) (log : List (Event Thread)) :
    Prop where
  numbered : ∀ name id, (∃ thread, .keyed thread name (some id) ∈ log) ↔
    (firsts log)[id.index]? = some name
  distinct : (firsts log).Nodup
  bounded : (firsts log).length ≤ capacity.get.toNat
  stable : log.Pairwise Event.Agrees
  full : ∀ thread name, .keyed thread name none ∈ log →
    (firsts log).length = capacity.get.toNat ∧ name ∉ firsts log
  listed : s.guard = none → s.table.names = firsts log
  counted : s.table.dropped.toNat = min (log.countP Event.isRefusal) (2 ^ 32 - 1)

def Stage.pending : Stage → List String
  | .inserting name _ => [name]
  | _ => []

def Shared.pending (s : Shared Thread) : List String :=
  match s.guard with
  | some (_, stage) => stage.pending
  | none => []

theorem pending_of_stage {stage : Stage} (isGuard : s.guard = some (thread, stage))
    (nothing : stage.pending = []) : s.pending = [] := by
  rw [Shared.pending, isGuard]
  exact nothing

def Stage.assigns? : Stage → Option (String × KeyId)
  | .pushing name id => some (name, id)
  | .inserting name id => some (name, id)
  | _ => none

structure Kept (capacity : NonZeroU16) (s : Shared Thread) (log : List (Event Thread)) : Prop
    extends Assigned capacity s log where
  capped : s.table.capacity = capacity
  names : s.table.names = firsts log ++ s.pending
  inverse : ∀ name id, s.table.byName.lookup name = some id ↔
    (firsts log)[id.index]? = some name
  assigning : ∀ thread stage name id, s.guard = some (thread, stage) →
    stage.assigns? = some (name, id) →
    name ∉ firsts log ∧ id.index = (firsts log).length ∧
      (firsts log).length < capacity.get.toNat

theorem kept_start (capacity : NonZeroU16) :
    Kept capacity (⟨.new capacity, none⟩ : Shared Thread) [] where
  numbered _ _ := by simp [firsts]
  distinct := .nil
  bounded := Nat.zero_le _
  stable := .nil
  full _ _ mem := by cases mem
  listed _ := rfl
  counted := rfl
  capped := rfl
  names := rfl
  inverse _ _ := by simp [firsts, KeyTable.new]
  assigning _ _ _ _ isGuard := by cases isGuard

theorem Kept.quiet (kept : Kept capacity s log) (capped : after.table.capacity = s.table.capacity)
    (byName : after.table.byName = s.table.byName) (dropped : after.table.dropped = s.table.dropped)
    (names : after.table.names = firsts log ++ after.pending)
    (assigning : ∀ thread stage name id, after.guard = some (thread, stage) →
      stage.assigns? = some (name, id) →
      name ∉ firsts log ∧ id.index = (firsts log).length ∧
        (firsts log).length < capacity.get.toNat) : Kept capacity after (log ++ []) := by
  rw [List.append_nil]
  exact
    { kept.toAssigned with
      listed := by
        intro isFree
        rw [names, Shared.pending, isFree]
        exact List.append_nil _
      counted := by rw [dropped, kept.counted]
      capped := by rw [capped, kept.capped]
      names := names
      inverse := by rw [byName]; exact kept.inverse
      assigning := assigning }

theorem Kept.agrees_keyed (kept : Kept capacity s log) {result : Option KeyId}
    (found : ∀ id, (firsts log)[id.index]? = some name → result = some id)
    (earlier : Event Thread)
    (mem : earlier ∈ log) : earlier.Agrees (.keyed thread name result) := by
  rintro other first id rfl
  refine ⟨fun later answer isKeyed => ?_, fun later answer isNamed => ?_⟩
  · cases isKeyed
    exact found id ((kept.numbered name id).mp ⟨other, mem⟩)
  · cases isNamed

theorem Kept.answer (kept : Kept capacity s log) {event : Event Thread}
    (known : learns (firsts log) event = firsts log)
    (agrees : ∀ earlier ∈ log, earlier.Agrees event)
    (numbers : ∀ thread name id, event = .keyed thread name (some id) →
      (firsts log)[id.index]? = some name)
    (refuses : ∀ thread name, event = .keyed thread name none →
      (firsts log).length = capacity.get.toNat ∧ name ∉ firsts log)
    (capped : after.table.capacity = s.table.capacity)
    (byName : after.table.byName = s.table.byName) (names : after.table.names = s.table.names)
    (still : s.pending = []) (leaving : after.guard = some (thread, .leaving))
    (counted : after.table.dropped.toNat =
      min ((log ++ [event]).countP Event.isRefusal) (2 ^ 32 - 1)) :
    Kept capacity after (log ++ [event]) := by
  have same : firsts (log ++ [event]) = firsts log := by rw [firsts_append]; exact known
  have unpending : after.pending = [] := pending_of_stage leaving rfl
  refine { numbered := ?_, distinct := ?_, bounded := ?_, stable := ?_, full := ?_,
           listed := ?_, counted := counted, capped := ?_, names := ?_, inverse := ?_,
           assigning := ?_ }
  · intro name id
    rw [same, ← kept.numbered name id]
    constructor
    · rintro ⟨other, mem⟩
      rcases List.mem_append.mp mem with mem | mem
      · exact ⟨other, mem⟩
      · exact (kept.numbered name id).mpr
          (numbers other name id (List.mem_singleton.mp mem).symm)
    · exact fun ⟨other, mem⟩ => ⟨other, List.mem_append_left _ mem⟩
  · rw [same]
    exact kept.distinct
  · rw [same]
    exact kept.bounded
  · rw [List.pairwise_append]
    refine ⟨kept.stable, List.pairwise_singleton .., ?_⟩
    intro earlier mem later isLater
    rw [List.mem_singleton.mp isLater]
    exact agrees earlier mem
  · intro other name mem
    rw [same]
    rcases List.mem_append.mp mem with mem | mem
    · exact kept.full other name mem
    · exact refuses other name (List.mem_singleton.mp mem).symm
  · intro isFree
    rw [leaving] at isFree
    cases isFree
  · rw [capped, kept.capped]
  · rw [names, kept.names, same, still, unpending]
  · rw [byName, same]
    exact kept.inverse
  · intro other stage name id isGuard assigns
    rw [leaving] at isGuard
    cases isGuard
    cases assigns

theorem getElem?_assign {names : List String} (isNext : id.index = names.length) (found : KeyId)
    (other : String) : (names ++ [name])[found.index]? = some other ↔
      names[found.index]? = some other ∨ other = name ∧ found = id := by
  by_cases within : found.index < names.length
  · have differs : found ≠ id := by
      rintro rfl
      exact Nat.ne_of_lt within isNext
    rw [List.getElem?_append_left within]
    exact ⟨.inl, fun either => either.resolve_right fun both => differs both.2⟩
  · have nothing : names[found.index]? = none :=
      List.getElem?_eq_none (Nat.le_of_not_lt within)
    rw [List.getElem?_append_right (Nat.le_of_not_lt within), nothing]
    by_cases same : found = id
    · subst same
      simp [isNext, eq_comm]
    · have past : found.index - names.length ≠ 0 := by
        intro zero
        apply same
        apply KeyId.index_injective
        omega
      simp [same, past]

theorem Kept.assign (kept : Kept capacity s log)
    (isGuard : s.guard = some (thread, .inserting name id)) :
    Kept capacity
      ⟨{ s.table with byName := s.table.byName.insert name id }, some (thread, .leaving)⟩
      (log ++ [.keyed thread name (some id)]) := by
  obtain ⟨fresh, isNext, room⟩ := kept.assigning _ _ _ _ isGuard rfl
  have grown : firsts (log ++ [Event.keyed thread name (some id)]) = firsts log ++ [name] := by
    rw [firsts_append]
    exact if_neg fresh
  have pending : s.pending = [name] := by
    rw [Shared.pending, isGuard]
    rfl
  have unkeyed : ∀ found : KeyId, (firsts log)[found.index]? ≠ some name := by
    intro found isFound
    exact fresh (List.mem_of_getElem? isFound)
  refine { numbered := ?_, distinct := ?_, bounded := ?_, stable := ?_, full := ?_,
           listed := ?_, counted := ?_, capped := kept.capped, names := ?_, inverse := ?_,
           assigning := ?_ }
  · intro other found
    rw [grown, getElem?_assign isNext, ← kept.numbered other found]
    constructor
    · rintro ⟨holder, mem⟩
      rcases List.mem_append.mp mem with mem | mem
      · exact .inl ⟨holder, mem⟩
      · cases List.mem_singleton.mp mem
        exact .inr ⟨rfl, rfl⟩
    · rintro (⟨holder, mem⟩ | ⟨rfl, rfl⟩)
      · exact ⟨holder, List.mem_append_left _ mem⟩
      · exact ⟨thread, List.mem_append_right _ (List.mem_singleton.mpr rfl)⟩
  · rw [grown]
    rw [← List.concat_eq_append]
    exact kept.distinct.concat fresh
  · rw [grown, List.length_append]
    exact room
  · rw [List.pairwise_append]
    refine ⟨kept.stable, List.pairwise_singleton .., ?_⟩
    intro earlier mem later isLater
    rw [List.mem_singleton.mp isLater]
    apply kept.agrees_keyed _ earlier mem
    intro found isFound
    exact absurd isFound (unkeyed found)
  · intro other refused mem
    rcases List.mem_append.mp mem with mem | mem
    · exact absurd (kept.full other refused mem).1 (Nat.ne_of_lt room)
    · cases List.mem_singleton.mp mem
  · intro isFree
    cases isFree
  · rw [List.countP_append]
    exact kept.counted
  · rw [grown, kept.names, pending]
    exact (List.append_nil _).symm
  · intro other found
    rw [grown, getElem?_assign isNext, ← kept.inverse]
    by_cases same : other = name
    · subst same
      rw [AList.lookup_insert]
      constructor
      · rintro ⟨⟩
        exact .inr ⟨rfl, rfl⟩
      · rintro (known | ⟨-, rfl⟩)
        · exact absurd ((kept.inverse other found).mp known) (unkeyed found)
        · rfl
    · rw [AList.lookup_insert_ne same]
      exact ⟨.inl, fun either => either.resolve_right fun both => same both.1⟩
  · intro other stage first found isLeaving assigns
    cases isLeaving
    cases assigns

theorem Kept.fresh (kept : Kept capacity s log) (unknown : s.table.byName.lookup name = none) :
    name ∉ firsts log := by
  intro mem
  obtain ⟨index, within, isFirst⟩ := List.mem_iff_getElem.mp mem
  have room := Nat.lt_of_lt_of_le within kept.bounded
  obtain ⟨id, -, rfl⟩ := KeyId.exists_index (Nat.lt_of_le_of_lt room capacity.get.toNat_lt)
  have known := (kept.inverse name id).mpr (List.getElem?_eq_some_iff.mpr ⟨within, isFirst⟩)
  rw [unknown] at known
  cases known

theorem refuse_dropped (table : KeyTable) :
    table.refuse.dropped.toNat = min (table.dropped.toNat + 1) (2 ^ 32 - 1) := by
  have within := table.dropped.toNat_lt
  unfold KeyTable.refuse
  split
  next room =>
    rw [UInt32.toNat_add]
    simp only [UInt32.reduceToNat]
    omega
  · dsimp only
    omega

theorem Kept.key (kept : Kept capacity s log)
    (isGuard : s.guard = some (thread, .called (.key name))) :
    Kept capacity (run s.table thread (.called (.key name))).1
      (log ++ (run s.table thread (.called (.key name))).2) := by
  have still := pending_of_stage isGuard rfl
  have names := kept.names
  rw [still, List.append_nil] at names
  unfold run
  dsimp only
  cases found : s.table.byName.lookup name with
  | some id =>
      have isFirst := (kept.inverse name id).mp found
      refine kept.answer ?_ ?_ ?_ ?_ rfl rfl rfl still rfl ?_
      · exact if_pos (List.mem_of_getElem? isFirst)
      · apply kept.agrees_keyed
        intro other isOther
        rw [← found]
        exact (kept.inverse name other).mpr isOther
      · intro other first number isKeyed
        cases isKeyed
        exact isFirst
      · intro other first isKeyed
        cases isKeyed
      · rw [List.countP_append]
        exact kept.counted
  | none =>
      have fresh := kept.fresh found
      by_cases room : s.table.names.length < s.table.capacity.get.toNat
      · obtain ⟨id, isNext, isIndex⟩ := nextId_of_room room
        rw [isNext]
        refine kept.quiet rfl rfl rfl ?_ ?_
        · rw [names]
          exact (List.append_nil _).symm
        · intro other stage first number isGuard assigns
          cases isGuard
          cases assigns
          rw [names] at room isIndex
          rw [kept.capped] at room
          exact ⟨fresh, isIndex, room⟩
      · have full := Nat.le_of_not_lt room
        rw [nextId_of_full full]
        refine kept.answer rfl ?_ ?_ ?_ rfl rfl rfl still rfl ?_
        · apply kept.agrees_keyed
          intro id isId
          exact absurd (List.mem_of_getElem? isId) fresh
        · intro other first id isKeyed
          cases isKeyed
        · intro other first isKeyed
          cases isKeyed
          rw [names, kept.capped] at full
          exact ⟨Nat.le_antisymm kept.bounded full, fresh⟩
        · rw [refuse_dropped, kept.counted, List.countP_append]
          change _ = min (_ + 1) _
          omega

theorem Kept.named {key : KeyId} (kept : Kept capacity s log)
    (isGuard : s.guard = some (thread, .called (.name key))) :
    Kept capacity (run s.table thread (.called (.name key))).1
      (log ++ (run s.table thread (.called (.name key))).2) := by
  have still := pending_of_stage isGuard rfl
  have names := kept.names
  rw [still, List.append_nil] at names
  refine kept.answer rfl ?_ ?_ ?_ rfl rfl rfl still rfl ?_
  · rintro earlier mem other name id rfl
    refine ⟨fun later answer isKeyed => ?_, fun later answer isNamed => ?_⟩
    · cases isKeyed
    · cases isNamed
      rw [names]
      exact (kept.numbered name key).mp ⟨other, mem⟩
  · intro other name id isKeyed
    cases isKeyed
  · intro other name isKeyed
    cases isKeyed
  · rw [List.countP_append]
    exact kept.counted

theorem Kept.push (kept : Kept capacity s log)
    (isGuard : s.guard = some (thread, .pushing name id)) :
    Kept capacity (run s.table thread (.pushing name id)).1
      (log ++ (run s.table thread (.pushing name id)).2) := by
  have names := kept.names
  rw [pending_of_stage isGuard rfl, List.append_nil] at names
  refine kept.quiet rfl rfl rfl ?_ ?_
  · rw [← names]
    rfl
  · intro other stage first number isNow assigns
    cases isNow
    cases assigns
    exact kept.assigning thread _ name id isGuard rfl

theorem Kept.leave (kept : Kept capacity s log) (isGuard : s.guard = some (thread, .leaving)) :
    Kept capacity ⟨s.table, none⟩ (log ++ []) := by
  have names := kept.names
  rw [pending_of_stage isGuard rfl] at names
  refine kept.quiet rfl rfl rfl names ?_
  intro other stage first number isNow
  cases isNow

theorem Kept.lock {call : Call} (kept : Kept capacity s log) (isFree : s.guard = none) :
    Kept capacity { s with guard := some (thread, .called call) } (log ++ []) := by
  have names := kept.names
  rw [Shared.pending, isFree] at names
  refine kept.quiet rfl rfl rfl names ?_
  intro other stage first number isNow assigns
  cases isNow
  cases assigns

theorem Kept.step {action : Action Thread} (kept : Kept capacity s log)
    (stepped : step s action = some (after, events)) : Kept capacity after (log ++ events) := by
  unfold InboundKey.step at stepped
  cases action with
  | lock thread call =>
      dsimp only at stepped
      split at stepped
      next isFree =>
        cases stepped
        exact kept.lock isFree
      · cases stepped
  | run =>
      dsimp only at stepped
      split at stepped
      · cases stepped
      next thread stage isGuard =>
        have outcome := Option.some.inj stepped
        cases stage with
        | called call =>
            cases call with
            | key name =>
                have keyed := kept.key isGuard
                rwa [outcome] at keyed
            | name key =>
                have named := kept.named isGuard
                rwa [outcome] at named
        | pushing name id =>
            have pushed := kept.push isGuard
            rwa [outcome] at pushed
        | inserting name id =>
            cases outcome
            exact kept.assign isGuard
        | leaving =>
            cases outcome
            exact kept.leave isGuard

/-- In every run the names that got a key have the ids from 1 on, in the order in which they
first did, and keep them. -/
theorem assigned_of_reachable
    (reached : Transition.Reachable step ⟨.new capacity, none⟩ s log) :
    Assigned capacity s log :=
  (reached.invariant _ (kept_start capacity) fun _ _ stepped kept => kept.step stepped).toAssigned

def one : NonZeroU16 := ⟨1, by decide⟩

/-- Two threads meet at a table for one name. -/
theorem assigned_of_reachable_one : ∃ s,
    Transition.Reachable step ⟨.new one, none⟩ s
      [.keyed 1 "hall" (some ⟨one⟩), .keyed 2 "attic" none,
        .named 2 ⟨one⟩ (some "hall")] ∧
      Assigned one s
        [.keyed 1 "hall" (some ⟨one⟩), .keyed 2 "attic" none,
            .named 2 ⟨one⟩ (some "hall")] := by
  obtain ⟨outcome, same, held⟩ := Option.any_eq_true .. |>.mp
    (show (Transition.replay step ⟨.new one, none⟩
      [.lock 1 (.key "hall"), .run, .run, .run, .run, .lock 2 (.key "attic"), .run, .run,
        .lock 2 (.name ⟨one⟩), .run]).any (fun outcome => decide (outcome.2 =
          [.keyed 1 "hall" (some ⟨one⟩), .keyed 2 "attic" none,
            .named 2 ⟨one⟩ (some "hall")])) =
            true by decide)
  have reached := Transition.reachable_of_replay same
  rw [of_decide_eq_true held] at reached
  exact ⟨outcome.1, reached, assigned_of_reachable reached⟩

end AimDb.InboundKey
