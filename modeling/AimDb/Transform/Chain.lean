import AimDb.Transform.Steps

/-!
# A chain of transforms computes its composition

Whatever the order in which the tasks run, a derived record holds what its
transform makes of the part of its input that was read, and along a chain that
has lost nothing it holds a beginning of the composed function's outputs.
-/

namespace AimDb.Transform

open Following Transition
open Outbound.Routes (Sample)

variable {T S : Type} {config : Config T S} {s after : State T S} {log emits : List (Event T)}

def Single.answer (single : Single T S) (sample : Sample T) (state : S) : Option T × S :=
  single.transformFn sample.value state

/-- How far the reader of a task has come, and what the log tells of it. -/
inductive Progress (history : List (Sample T)) :
    List ℕ → List (Reading (Sample T)) → Reader → Prop
  | unsubscribed : Progress history [] [] .unsubscribed
  | unresolved : Progress history [] [] .gone
  | subscribed {joined next : ℕ} {readings : List (Reading (Sample T))} :
      Follows history joined readings next → Progress history [joined] readings (.subscribed next)
  | gone {joined next : ℕ} {readings : List (Reading (Sample T))} :
      Follows history joined readings next → Progress history [joined] readings .gone

namespace Progress

variable {history : List (Sample T)} {joined : List ℕ} {read : List (Reading (Sample T))}
  {reader : Reader} {next : ℕ}

theorem grow (progress : Progress history joined read reader) (more : List (Sample T)) :
    Progress (history ++ more) joined read reader := by
  cases progress with
  | unsubscribed => exact .unsubscribed
  | unresolved => exact .unresolved
  | subscribed follows => exact .subscribed (follows.grow more)
  | gone follows => exact .gone (follows.grow more)

theorem finish (progress : Progress history joined read reader) :
    Progress history joined read .gone := by
  cases progress with
  | unsubscribed | unresolved => exact .unresolved
  | subscribed follows | gone follows => exact .gone follows

theorem follows (progress : Progress history joined read (.subscribed next)) :
    ∃ start, joined = [start] ∧ Follows history start read next := by
  cases progress with
  | subscribed follows => exact ⟨_, rfl, follows⟩

theorem sample {passed : ℕ} {sample : Sample T}
    (progress : Progress history joined read (.subscribed next))
    (found : history[next + passed]? = some sample) :
    Progress history joined (read ++ [.sample passed sample])
        (.subscribed (next + (passed + 1))) := by
  obtain ⟨start, rfl, follows⟩ := progress.follows
  exact .subscribed (follows.sample found)

theorem missed {count : ℕ} (progress : Progress history joined read (.subscribed next))
    (le : next + count ≤ history.length) :
    Progress history joined (read ++ [.missed count]) (.subscribed (next + count)) := by
  obtain ⟨start, rfl, follows⟩ := progress.follows
  exact .subscribed (follows.missed le)

theorem subscribe {start : ℕ} (progress : Progress history joined read .unsubscribed)
    (le : start ≤ history.length) :
    Progress history (joined ++ [start]) read (.subscribed start) := by
  cases progress with
  | unsubscribed => exact .subscribed (.join le)

theorem of_joined {start : ℕ} (progress : Progress history joined read reader)
    (mem : start ∈ joined) :
    ∃ next, (∀ stands, reader = .subscribed stands → stands = next) ∧
      Follows history start read next := by
  cases progress with
  | unsubscribed | unresolved => exact (List.not_mem_nil mem).elim
  | @subscribed _ next _ follows =>
      cases List.mem_singleton.mp mem
      exact ⟨next, by simp, follows⟩
  | @gone _ next _ follows =>
      cases List.mem_singleton.mp mem
      exact ⟨next, by simp, follows⟩

end Progress

/-- What holds of the tasks after any history of steps. -/
structure Kept (config : Config T S) (s : State T S) (log : List (Event T)) : Prop where
  written : ∀ record, s.written record = writes record log
  progress : ∀ task input, config.input task = some input →
    Progress (s.written input) (joins task log) (readings task log) (s.readers task)
  settled : ∀ transform single, config.transforms[transform]? = some single →
    s.states transform = some (settle single.answer single.initialState
      (samples (readings (.transform transform) log)))
  computed : ∀ transform single, config.transforms[transform]? = some single →
    authored (.transform transform) log = emitted single.answer single.initialState
      (samples (readings (.transform transform) log))
  placed : ∀ transform record sample, .wrote (.transform transform) record sample ∈ log →
    ∃ single, config.transforms[transform]? = some single ∧ single.output = record

theorem Moves.written (moves : Moves config s after emits) (record : ℕ) :
    after.written record = s.written record ++ writes record emits := by
  cases moves with
  | @wrote _ other sample _ =>
      by_cases same : other = record
      · subst same
        simp [State.write, Event.write?]
      · simp [State.write, Event.write?, same, Ne.symm same]
  | @derived _ _ _ _ _ _ single _ _ _ _ _ _ _ =>
      by_cases same : single.output = record
      · subst same
        simp [State.write, State.setState, State.setReader, Event.write?]
      · simp [State.write, State.setState, State.setReader, Event.write?, same, Ne.symm same]
  | _ =>
      simp [State.setState, State.setReader, State.setSending, State.setQueue, State.finish,
        Event.write?]

theorem input_transform {transform input : ℕ} {single : Single T S}
    (configured : config.transforms[transform]? = some single) (reads : single.input = input) :
    config.input (.transform transform) = some input := by
  rw [Config.input, configured, Option.map_some, reads]

theorem Progress.update {history : List (Sample T)} {joined more : List ℕ}
    {read further : List (Reading (Sample T))} {task other : Task} {reader : Reader}
    (progress : Progress history joined read (s.readers task))
    (own : other = task → Progress history (joined ++ more) (read ++ further) reader)
    (others : other ≠ task → more = [] ∧ further = []) :
    Progress history (joined ++ more) (read ++ further)
      (Function.update s.readers other reader task) := by
  by_cases same : other = task
  · subst same
    rw [Function.update_self]
    exact own rfl
  · obtain ⟨rfl, rfl⟩ := others same
    rw [Function.update_of_ne (Ne.symm same), List.append_nil, List.append_nil]
    exact progress

theorem Moves.progress (moves : Moves config s after emits) {task : Task} {input : ℕ}
    (reads : config.input task = some input)
    (progress : Progress (s.written input) (joins task log) (readings task log) (s.readers task)) :
    Progress (after.written input) (joins task (log ++ emits)) (readings task (log ++ emits))
      (after.readers task) := by
  rw [moves.written, joins_append, readings_append]
  apply Progress.grow
  cases moves with
  | @subscribed other _ _ reads' fresh le =>
      apply progress.update
      · rintro rfl
        cases reads.symm.trans reads'
        rw [fresh] at progress
        simpa [Event.joined?, Event.reading?] using progress.subscribe le
      · intro differs
        simp [Event.joined?, Event.reading?, differs]
  | @missed other _ _ _ reads' stood _ le =>
      apply progress.update
      · rintro rfl
        cases reads.symm.trans reads'
        rw [stood] at progress
        simpa [Event.joined?, Event.reading?] using progress.missed le
      · intro differs
        simp [Event.joined?, Event.reading?, differs]
  | @absorbed transform _ _ _ _ _ _ configured same stood found
  | @derived transform _ _ _ _ _ _ _ configured same stood found =>
      apply progress.update
      · rintro rfl
        cases reads.symm.trans (input_transform configured same)
        rw [stood] at progress
        simpa [Event.joined?, Event.reading?] using progress.sample found
      · intro differs
        simp [Event.joined?, Event.reading?, differs]
  | @forwarded join index _ _ _ _ reads' stood _ found =>
      apply progress.update
      · rintro rfl
        cases reads.symm.trans reads'
        rw [stood] at progress
        simpa [Event.joined?, Event.reading?] using progress.sample found
      · intro differs
        simp [Event.joined?, Event.reading?, differs]
  | @finished other | @refused join index =>
      apply progress.update
      · rintro rfl
        simpa [Event.joined?, Event.reading?] using progress.finish
      · intro
        simp [Event.joined?, Event.reading?]
  | _ =>
      simpa [Event.joined?, Event.reading?, State.write, State.setSending,
        State.setQueue] using progress

theorem Moves.computed (moves : Moves config s after emits) {transform : ℕ} {single : Single T S}
    {state : S} (configured : config.transforms[transform]? = some single)
    (has : s.states transform = some state) :
    after.states transform =
        some (settle single.answer state (samples (readings (.transform transform) emits))) ∧
      authored (.transform transform) emits =
        emitted single.answer state (samples (readings (.transform transform) emits)) := by
  cases moves with
  | @absorbed other _ _ _ sample _ _ configured' _ _ _ has' quiet
  | @derived other _ _ _ sample _ _ _ configured' _ _ _ has' quiet =>
      by_cases same : other = transform
      · subst same
        cases configured.symm.trans configured'
        cases has.symm.trans has'
        simp [State.setState, State.setReader, State.write, Event.reading?,
          Event.authored?, Reading.entry?, settle, emitted, Single.answer, quiet]
      · simp [State.setState, State.setReader, State.write, Event.reading?,
          Event.authored?, settle, emitted, same, Ne.symm same, has]
  | wrote notTransform =>
      simpa [State.write, Event.reading?, Event.authored?, settle,
        emitted, notTransform] using has
  | @missed other =>
      by_cases same : other = .transform transform
      · simpa [State.setReader, Event.reading?, Event.authored?, Reading.entry?, settle,
          emitted, same] using has
      · simpa [State.setReader, Event.reading?, Event.authored?, settle, emitted, same]
          using has
  | _ =>
      simpa [State.setReader, State.setSending, State.setQueue, State.finish, Event.reading?,
        Event.authored?, settle, emitted] using has

theorem Moves.placed (moves : Moves config s after emits) {transform record : ℕ}
    {sample : Sample T} (wrote : .wrote (.transform transform) record sample ∈ emits) :
    ∃ single, config.transforms[transform]? = some single ∧ single.output = record := by
  cases moves with
  | wrote notTransform =>
      cases List.mem_singleton.mp wrote
      exact (notTransform transform rfl).elim
  | @derived other _ _ _ _ written single _ configured =>
      obtain ⟨rfl, rfl, rfl⟩ : transform = other ∧ record = single.output ∧
          sample = written := by
        simpa using wrote
      exact ⟨single, configured, rfl⟩
  | _ => simp at wrote

theorem kept_start : Kept config (start config) ([] : List (Event T)) where
  written _ := rfl
  progress _ _ _ := .unsubscribed
  settled transform single configured := by simp [start, configured, settle]
  computed _ _ _ := rfl
  placed _ _ _ mem := (List.not_mem_nil mem).elim

theorem Kept.step {input : Input T} (kept : Kept config s log)
    (stepped : step config s input = some (after, emits)) : Kept config after (log ++ emits) := by
  have moves := moves_of_step (fun transform single configured =>
    ⟨_, kept.settled transform single configured⟩) stepped
  constructor
  · intro record
    rw [moves.written, kept.written, writes_append]
  · intro task input reads
    exact moves.progress reads (kept.progress task input reads)
  · intro transform single configured
    rw [(moves.computed configured (kept.settled transform single configured)).1, readings_append,
      samples_append, settle_append]
  · intro transform single configured
    rw [authored_append, kept.computed transform single configured,
      (moves.computed configured (kept.settled transform single configured)).2, readings_append,
      samples_append, emitted_append]
  · intro transform record sample mem
    rcases List.mem_append.mp mem with old | new
    · exact kept.placed transform record sample old
    · exact moves.placed new

theorem kept_of_runs (reached : Runs config s log) : Kept config s log :=
  reached.invariant _ kept_start fun _ _ stepped kept => kept.step stepped

def Event.writer? (record : ℕ) : Event T → Option Writer
  | .wrote writer other _ => if other = record then some writer else none
  | _ => none

def writers (record : ℕ) (log : List (Event T)) : List Writer :=
  log.filterMap (Event.writer? record)

def State.values (s : State T S) (record : ℕ) : List T := (s.written record).map (·.value)

/-- A record at the end of a chain of transforms, each of which has subscribed, has lost
nothing of its input and is alone in writing its output, and the function they compute. -/
inductive Derived (config : Config T S) (log : List (Event T)) (source : ℕ) :
    List ℕ → ℕ → (List T → List T) → Prop
  | source : Derived config log source [] source id
  | through {chain : List ℕ} {compute : List T → List T} {transform joined : ℕ}
      {single : Single T S} :
      config.transforms[transform]? = some single →
      Derived config log source chain single.input compute →
      .subscribed (.transform transform) joined ∈ log →
      (∀ reading ∈ readings (.transform transform) log, reading.Exact) →
      (∀ writer ∈ writers single.output log, writer = .transform transform) →
      Derived config log source (transform :: chain) single.output fun values =>
        emitted single.transformFn single.initialState ((compute values).drop joined)

def State.CaughtUp (config : Config T S) (s : State T S) (chain : List ℕ) : Prop :=
  ∀ transform ∈ chain, ∀ single, config.transforms[transform]? = some single →
    s.readers (.transform transform) = .subscribed (s.written single.input).length

theorem Kept.values_output (kept : Kept config s log) {transform : ℕ} {single : Single T S}
    (configured : config.transforms[transform]? = some single)
    (sole : ∀ writer ∈ writers single.output log, writer = .transform transform) :
    s.values single.output = authored (.transform transform) log := by
  rw [State.values, kept.written, writes, authored, List.map_filterMap]
  apply List.filterMap_congr
  intro event mem
  cases event with
  | wrote writer record sample =>
      by_cases same : record = single.output
      · subst same
        have known : writer = .transform transform :=
          sole writer (List.mem_filterMap.mpr ⟨_, mem, by simp [Event.writer?]⟩)
        simp [Event.write?, Event.authored?, known]
      · have other : writer ≠ .transform transform := by
          rintro rfl
          obtain ⟨_, configured', at_output⟩ := kept.placed transform record sample mem
          cases configured.symm.trans configured'
          exact same at_output.symm
        simp [Event.write?, Event.authored?, same, other]
  | _ => rfl

theorem Kept.output_eq (kept : Kept config s log) {transform joined : ℕ} {single : Single T S}
    (configured : config.transforms[transform]? = some single)
    (subscribed : .subscribed (.transform transform) joined ∈ log)
    (exact : ∀ reading ∈ readings (.transform transform) log, reading.Exact)
    (sole : ∀ writer ∈ writers single.output log, writer = .transform transform) :
    ∃ next, (∀ stands, s.readers (.transform transform) = .subscribed stands →
      stands = next) ∧
      s.values single.output = emitted single.transformFn single.initialState
        (((s.values single.input).take next).drop joined) := by
  have mem : joined ∈ joins (.transform transform) log :=
    List.mem_filterMap.mpr ⟨_, subscribed, by simp [Event.joined?]⟩
  have progress := kept.progress _ _ (input_transform configured rfl)
  obtain ⟨next, at_next, follows⟩ := progress.of_joined mem
  refine ⟨next, at_next, ?_⟩
  rw [kept.values_output configured sole, kept.computed transform single configured,
    follows.samples_of_exact exact]
  have view := emitted_comp single.transformFn single.initialState (·.value)
    (((s.written single.input).take next).drop joined)
  rw [List.map_drop, List.map_take] at view
  exact view

/-- Every record at the end of a chain holds a beginning of what the chain computes from its
source, and all of it once the transforms have caught up. -/
theorem chain_computes (reached : Runs config s log) {source record : ℕ} {chain : List ℕ}
    {compute : List T → List T} (derived : Derived config log source chain record compute) :
    s.values record <+: compute (s.values source) ∧
      (s.CaughtUp config chain → s.values record = compute (s.values source)) := by
  have kept := kept_of_runs reached
  induction derived with
  | source => exact ⟨List.prefix_refl _, fun _ => rfl⟩
  | @through chain compute transform joined single configured _ subscribed exact sole
      inductionHypothesis =>
      obtain ⟨next, at_next, output⟩ := kept.output_eq configured subscribed exact sole
      rw [output]
      constructor
      · apply emitted_prefix
        apply List.IsPrefix.drop
        exact (List.take_prefix next _).trans inductionHypothesis.1
      · intro caughtUp
        have all := at_next _ (caughtUp transform List.mem_cons_self single configured)
        have before : s.CaughtUp config chain := fun other mem =>
          caughtUp other (List.mem_cons_of_mem _ mem)
        have taken : (s.values single.input).take next = s.values single.input := by
          rw [← all]
          exact List.take_of_length_le (by simp [State.values])
        rw [taken, inductionHypothesis.2 before]

/-- Record 1 doubles record 0, and record 2 adds up record 1. -/
def summing : Config ℕ ℕ where
  transforms := [⟨0, 1, 0, fun value state => (some (2 * value), state)⟩,
    ⟨1, 2, 0, fun value sum => (some (sum + value), sum + value)⟩]
  joins := []
  roomy := true

private def summed : List (Input ℕ) :=
  [.subscribe (.transform 1) (some 0), .produce 0 ⟨1, ⟨10⟩⟩,
    .subscribe (.transform 0) (some 0),
    .recv (.transform 0) (.sample 0) 11, .produce 0 ⟨2, ⟨12⟩⟩,
    .recv (.transform 0) (.sample 0) 13,
    .recv (.transform 1) (.sample 0) 14, .recv (.transform 1) (.sample 0) 15]

/-- The source was written twice, and each transform, alone in writing its output, has read
both values. -/
private def Summed (run : State ℕ ℕ × List (Event ℕ)) : Prop :=
  run.1.values 0 = [1, 2] ∧
    (∀ transform < 2, run.1.readers (.transform transform) = .subscribed 2 ∧
      (run.1.written transform).length = 2 ∧ .subscribed (.transform transform) 0 ∈ run.2 ∧
      (∀ reading ∈ readings (.transform transform) run.2, reading.Exact) ∧
      ∀ writer ∈ writers (transform + 1) run.2, writer = .transform transform)

private instance : DecidablePred Summed := fun _ => inferInstanceAs (Decidable (_ ∧ _))

theorem chain_computes_summed :
    ∃ s log, Runs summing s log ∧ s.values 0 = [1, 2] ∧ s.values 2 = [2, 6] := by
  have replayed : (replay (step summing) (start summing) summed).any Summed = true := by
    decide
  obtain ⟨⟨s, log⟩, run, told⟩ := (Option.any_eq_true _ _).mp replayed
  obtain ⟨source, facts⟩ := of_decide_eq_true told
  have reached : Runs summing s log := reachable_of_replay run
  obtain ⟨reader, length, subscribed, exact, sole⟩ := facts 0 (by decide)
  obtain ⟨reader', length', subscribed', exact', sole'⟩ := facts 1 (by decide)
  have doubled := @Derived.through ℕ ℕ summing log 0 [] id 0 0 ⟨0, 1, 0, _⟩ rfl .source
    subscribed exact sole
  have added := @Derived.through ℕ ℕ summing log 0 _ _ 1 0 ⟨1, 2, 0, _⟩ rfl doubled
    subscribed' exact' sole'
  have caughtUp : s.CaughtUp summing [1, 0] := by
    intro transform _ single configured
    rcases transform with _ | _ | transform
    · cases configured
      exact reader.trans (congrArg Reader.subscribed length.symm)
    · cases configured
      exact reader'.trans (congrArg Reader.subscribed length'.symm)
    · simp [summing] at configured
  refine ⟨s, log, reached, source, ?_⟩
  rw [(chain_computes reached added).2 caughtUp, source]
  decide

end AimDb.Transform
