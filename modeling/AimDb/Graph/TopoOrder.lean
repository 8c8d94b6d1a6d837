import AimDb.Graph
import AimDb.Topological.Kahn

/-!
# The topological order is one, and is found whenever there is one

The in-degree of a key counts its inputs that have not been taken, repeated ones
as often as they are named.  So the records at zero are those whose inputs have
all been taken, and every turn of the loop keeps a frontier.
-/

namespace AimDb

open AimDb.Topological

namespace GraphNode

def inputs (node : GraphNode) : List String :=
  match node.origin with
  | .transform input => [input]
  | .transformJoin inputs => inputs
  | .source | .link _ _ | .passive => []

end GraphNode

namespace DependencyGraph

def inputsOf (nodes : List GraphNode) (key : String) : List String :=
  (nodes.filter fun node => node.key = key).flatMap GraphNode.inputs

theorem transformEdges_eq (nodes : List GraphNode) :
    transformEdges nodes = nodes.flatMap fun node => node.inputs.map fun input =>
        (input, node.key) := by
  induction nodes with
  | nil => rfl
  | cons node nodes inductionHypothesis =>
      rw [transformEdges, transformInputs] at inductionHypothesis ⊢
      obtain ⟨key, origin, _, _, _, _, _, _⟩ := node
      cases origin <;> simp [inductionHypothesis, GraphNode.inputs]

/-- The keys some edges lead to from `key`. -/
def targets (edges : List (String × String)) (key : String) : List String :=
  (edges.filter fun edge => edge.1 = key).map Prod.snd

/-- The keys some edges lead to `key` from. -/
def sources (edges : List (String × String)) (key : String) : List String :=
  (edges.filter fun edge => edge.2 = key).map Prod.fst

theorem sources_transformEdges (nodes : List GraphNode) :
    sources (transformEdges nodes) = inputsOf nodes := by
  funext key
  rw [transformEdges_eq]
  induction nodes with
  | nil => rfl
  | cons node nodes inductionHypothesis =>
      rw [sources, inputsOf] at inductionHypothesis ⊢
      rw [List.flatMap_cons, List.filter_append, List.map_append, inductionHypothesis]
      by_cases same : node.key = key <;> simp [same, List.filter_map, Function.comp_def]

theorem mem_sources_iff {edges : List (String × String)} {a b : String} :
    a ∈ sources edges b ↔ (a, b) ∈ edges := by
  simp [sources]

theorem mem_targets_iff {edges : List (String × String)} {a b : String} :
    b ∈ targets edges a ↔ (a, b) ∈ edges := by
  simp [targets]

theorem count_targets (edges : List (String × String)) (a b : String) :
    (targets edges a).count b = (sources edges b).count a := by
  induction edges with
  | nil => rfl
  | cons edge edges inductionHypothesis =>
      obtain ⟨input, output⟩ := edge
      rw [targets, sources] at inductionHypothesis ⊢
      by_cases isInput : input = a <;> by_cases isOutput : output = b <;>
        simp [isInput, isOutput, inductionHypothesis]

theorem foldl_orInsert {Value : Type} (value : Value) (keys : List String)
    (map : HashMap Value) (key : String) :
    keys.foldl (fun map key => map.orInsert key value) map key =
      if key ∈ keys then some ((map key).getD value) else map key := by
  induction keys generalizing map with
  | nil => simp
  | cons first keys inductionHypothesis =>
      rw [List.foldl_cons, inductionHypothesis]
      by_cases same : key = first
      · subst same
        simp [HashMap.orInsert]
      · simp [HashMap.orInsert, same]

theorem foldl_inDegree (edges : List (String × String)) (map : HashMap ℕ) (key : String) :
    (edges.foldl
      (fun map (edge : String × String) =>
        Function.update map edge.2 (some ((map edge.2).getD 0 + 1))) map key).getD 0 =
      (map key).getD 0 + (sources edges key).length := by
  induction edges generalizing map with
  | nil => rfl
  | cons edge edges inductionHypothesis =>
      rw [List.foldl_cons, inductionHypothesis]
      by_cases same : edge.2 = key
      · subst same
        simp [sources]
        omega
      · simp [sources, same, Function.update_of_ne (Ne.symm same)]

theorem foldl_adjacency (edges : List (String × String)) (map : HashMap (List String))
    (key : String) :
    (edges.foldl
      (fun map (edge : String × String) =>
        Function.update map edge.1 (some ((map edge.1).getD [] ++ [edge.2]))) map key).getD [] =
      (map key).getD [] ++ targets edges key := by
  induction edges generalizing map with
  | nil => simp [targets]
  | cons edge edges inductionHypothesis =>
      rw [List.foldl_cons, inductionHypothesis]
      by_cases same : edge.1 = key
      · subst same
        simp [targets]
      · simp [targets, same, Function.update_of_ne (Ne.symm same)]

theorem foldl_inDegree_isSome (edges : List (String × String)) (map : HashMap ℕ) {key : String}
    (known : (map key).isSome) :
    (edges.foldl
      (fun map (edge : String × String) =>
        Function.update map edge.2 (some ((map edge.2).getD 0 + 1))) map key).isSome := by
  induction edges generalizing map with
  | nil => exact known
  | cons edge edges inductionHypothesis =>
      apply inductionHypothesis
      by_cases same : key = edge.2
      · subst same
        simp
      · simpa [Function.update_of_ne same] using known

theorem inDegrees_eq {allKeys : List String} {key : String} (known : key ∈ allKeys)
    (nodes : List GraphNode) :
    inDegrees allKeys nodes key = some (inputsOf nodes key).length := by
  have start := foldl_orInsert 0 allKeys (fun _ => none) key
  rw [if_pos known] at start
  have present := foldl_inDegree_isSome (transformEdges nodes)
    (allKeys.foldl (fun map key => map.orInsert key 0) fun _ => none) (by rw [start]; rfl)
  have counted := foldl_inDegree (transformEdges nodes)
    (allKeys.foldl (fun map key => map.orInsert key 0) fun _ => none) key
  obtain ⟨degree, found⟩ := Option.isSome_iff_exists.mp present
  rw [found, start, sources_transformEdges] at counted
  rw [inDegrees, found]
  simpa using counted

theorem adjacencies_eq {allKeys : List String} {key : String} (known : key ∈ allKeys)
    (nodes : List GraphNode) :
    (adjacencies allKeys nodes key).getD [] = targets (transformEdges nodes) key := by
  have start := foldl_orInsert ([] : List String) allKeys (fun _ => none) key
  rw [if_pos known] at start
  rw [adjacencies, foldl_adjacency, start]
  rfl

theorem perm_set_last {before after : List String} {node last : String}
    (isLast : (before ++ node :: after).getLast? = some last) :
    (before ++ node :: after).Perm
      (node :: ((before ++ node :: after).set before.length last).dropLast) := by
  rw [List.set_append_right _ _ le_rfl, Nat.sub_self, List.set_cons_zero]
  rcases List.eq_nil_or_concat after with rfl | ⟨after, final, rfl⟩
  · rw [List.dropLast_concat]
    exact List.perm_append_singleton _ _
  · rw [List.concat_eq_append] at isLast ⊢
    have same : final = last := by
      rw [← List.cons_append, ← List.append_assoc, List.getLast?_concat] at isLast
      exact Option.some.inj isLast
    have dropped : (before ++ last :: (after ++ [final])).dropLast = before ++ last :: after := by
      rw [← List.cons_append, ← List.append_assoc, List.dropLast_concat]
    have atEnd : (before ++ node :: (after ++ [final])).Perm
        (final :: (before ++ node :: after)) := by
      rw [← List.cons_append, ← List.append_assoc]
      exact List.perm_append_singleton _ _
    rw [dropped]
    refine atEnd.trans ?_
    rw [same]
    refine (List.Perm.cons last List.perm_middle).trans ((List.Perm.swap node last _).trans ?_)
    exact .cons node List.perm_middle.symm

theorem swapRemoveBack_perm {queue rest : List String} {index : ℕ} {node : String}
    (removed : swapRemoveBack queue index = some (node, rest)) : queue.Perm (node :: rest) := by
  rw [swapRemoveBack] at removed
  split at removed
  · rename_i first last found isLast
    obtain ⟨rfl, rfl⟩ := Prod.mk.inj (Option.some.inj removed)
    obtain ⟨before, after, split, rfl⟩ : ∃ before after,
        queue = before ++ first :: after ∧ index = before.length := by
      obtain ⟨inside, rfl⟩ := List.getElem?_eq_some_iff.mp found
      exact ⟨queue.take index, queue.drop (index + 1), by simp, by simp; omega⟩
    subst split
    exact perm_set_last isLast
  · exact nomatch removed

theorem draw_cases (rng : Option SplitMix64) (queue : List String) :
    (queue = [] ∧ draw rng queue = none) ∨
      ∃ node rest after, draw rng queue = some (node, rest, after) ∧
      queue.Perm (node :: rest) ∧
        (rng = none → queue = node :: rest) ∧ (rng = none ↔ after = none) := by
  cases queue with
  | nil => exact .inl ⟨rfl, by cases rng <;> rfl⟩
  | cons first queue =>
      right
      cases rng with
      | none => exact ⟨first, queue, none, rfl, .refl _, fun _ => rfl, by simp⟩
      | some rng =>
          have inside := SplitMix64.below_lt rng (Nat.succ_pos queue.length)
          have found : (first :: queue)[(rng.below (queue.length + 1)).1]? =
              some (first :: queue)[(rng.below (queue.length + 1)).1] :=
            List.getElem?_eq_getElem inside
          have removed : ∃ node rest, swapRemoveBack (first :: queue)
              (rng.below (first :: queue).length).1 = some (node, rest) := by
            rw [swapRemoveBack, List.length_cons, found, List.getLast?_cons]
            exact ⟨_, _, rfl⟩
          obtain ⟨node, rest, removed⟩ := removed
          refine ⟨node, rest, some (rng.below (first :: queue).length).2, ?_,
            swapRemoveBack_perm removed, by simp, by simp⟩
          simp only [draw, removed, Option.map_some]

theorem release_spec {neighbors : List String} {inDegree : HashMap ℕ}
    (counted : ∀ k ∈ neighbors, ∃ degree, inDegree k = some degree ∧
      neighbors.count k ≤ degree)
    (queue : List String) :
    ∃ after new, release neighbors inDegree queue = some (after, queue ++ new) ∧
      (∀ k, after k = (inDegree k).map (· - neighbors.count k)) ∧ new.Sublist neighbors ∧
      new.Nodup ∧ ∀ k, k ∈ new ↔
      k ∈ neighbors ∧ inDegree k = some (neighbors.count k) := by
  induction neighbors generalizing inDegree queue with
  | nil => exact ⟨inDegree, [], by simp [release], by simp, .slnil, by simp, by simp⟩
  | cons first rest inductionHypothesis =>
      obtain ⟨degree, found, enough⟩ := counted first (by simp)
      rw [List.count_cons_self] at enough
      obtain ⟨degree, rfl⟩ := Nat.exists_eq_add_of_le' (Nat.one_le_of_lt enough)
      have lower : ∀ k ∈ rest, ∃ left,
        Function.update inDegree first (some degree) k = some left ∧
          rest.count k ≤ left := by
        intro k inside
        by_cases same : k = first
        · subst same
          exact ⟨degree, by simp, by omega⟩
        · obtain ⟨left, known, enough⟩ := counted k (List.mem_cons_of_mem _ inside)
          rw [List.count_cons_of_ne (Ne.symm same)] at enough
          exact ⟨left, by rwa [Function.update_of_ne same], enough⟩
      obtain ⟨after, new, released, counts, sublist, nodup, members⟩ :=
        inductionHypothesis lower (if degree = 0 then queue ++ [first] else queue)
      have afterCounts : ∀ k, after k = (inDegree k).map (· - (first :: rest).count k) := by
        intro k
        rw [counts]
        by_cases same : k = first
        · subst same
          simp [found]
        · simp [Function.update_of_ne same, List.count_cons_of_ne (Ne.symm same)]
      by_cases zero : degree = 0
      · subst zero
        have gone : first ∉ rest := List.count_eq_zero.mp (by omega)
        refine ⟨after, first :: new, ?_, afterCounts, sublist.cons_cons _, ?_, ?_⟩
        · simp only [release, found, Nat.zero_add]
          simpa using released
        · exact List.nodup_cons.mpr ⟨fun isNew => gone ((members first).mp isNew).1, nodup⟩
        · intro k
          by_cases same : k = first
          · subst same
            simp [found, List.count_eq_zero_of_not_mem gone]
          · simp [members, same, List.count_cons_of_ne (Ne.symm same)]
      · refine ⟨after, new, ?_, afterCounts, sublist.cons _, nodup, ?_⟩
        · simp only [release, found]
          simpa [zero] using released
        · intro k
          rw [members]
          by_cases same : k = first
          · subst same
            have counts : degree = rest.count k ↔ degree + 1 = rest.count k + 1 := by omega
            by_cases inside : k ∈ rest
            · simp [found, inside]
            · simp [found, inside, List.count_eq_zero_of_not_mem inside, zero]
          · simp [same, List.count_cons_of_ne (Ne.symm same)]

theorem mem_inputsOf_iff {nodes : List GraphNode} {a b : String} :
    a ∈ inputsOf nodes b ↔ ∃ node ∈ nodes, node.key = b ∧ a ∈ node.inputs := by
  simp [inputsOf, and_assoc]

def InputsExist (nodes : List GraphNode) : Prop :=
  ∀ node ∈ nodes, ∀ input ∈ node.inputs, input ∈ nodes.map GraphNode.key

theorem InputsExist.known {nodes : List GraphNode} (exist : InputsExist nodes) (a b : String)
    (feeds : a ∈ inputsOf nodes b) :
    a ∈ nodes.map GraphNode.key ∧ b ∈ nodes.map GraphNode.key := by
  obtain ⟨node, inside, rfl, isInput⟩ := mem_inputsOf_iff.mp feeds
  exact ⟨exist node inside a isInput, List.mem_map_of_mem inside⟩

/-- The inputs not taken yet are counted, and the ready records are queued. -/
structure Sorting (nodes : List GraphNode) (state : KahnState) : Prop where
  frontier : Frontier (inputsOf nodes) (nodes.map GraphNode.key) state.topoOrder state.queue
  counted : ∀ k ∈ nodes.map GraphNode.key,
    state.inDegree k = some ((inputsOf nodes k).countP fun a => a ∉ state.topoOrder)
  served : state.rng = none →
    (state.topoOrder ++ state.queue).Pairwise
      (Precedes (inputsOf nodes) (nodes.map GraphNode.key).idxOf state.topoOrder)

theorem countP_take {order inputs : List String} {node : String} (fresh : node ∉ order) :
    inputs.countP (fun a => a ∉ order) =
      inputs.countP (fun a => a ∉ order ++ [node]) + inputs.count node := by
  induction inputs with
  | nil => rfl
  | cons first inputs inductionHypothesis =>
      by_cases same : first = node
      · subst same
        simp [fresh] at inductionHypothesis ⊢
        omega
      · by_cases inside : first ∈ order <;>
          simp [same, inside] at inductionHypothesis ⊢ <;> omega

theorem countP_eq_zero_iff {order inputs : List String} :
    inputs.countP (fun a => a ∉ order) = 0 ↔ ∀ a ∈ inputs, a ∈ order := by
  simp only [List.countP_eq_zero, decide_eq_true_eq, not_not]

theorem pairwise_idxOf {keys : List String} (distinct : keys.Nodup) :
    keys.Pairwise fun a b => keys.idxOf a < keys.idxOf b := by
  rw [List.pairwise_iff_getElem]
  intro i j insideI insideJ before
  rwa [distinct.idxOf_getElem i insideI, distinct.idxOf_getElem j insideJ]

/-- The neighbours of a record stand in registration order. -/
theorem pairwise_targets {nodes : List GraphNode} (distinct : (nodes.map GraphNode.key).Nodup)
    (key : String) :
    (targets (transformEdges nodes) key).Pairwise fun a b =>
      (nodes.map GraphNode.key).idxOf a ≤ (nodes.map GraphNode.key).idxOf b := by
  have outputs : ((transformEdges nodes).map Prod.snd).Pairwise fun a b =>
      (nodes.map GraphNode.key).idxOf a ≤ (nodes.map GraphNode.key).idxOf b := by
    have climbs := pairwise_idxOf distinct
    rw [List.pairwise_map] at climbs
    rw [transformEdges_eq, List.map_flatMap, List.pairwise_flatMap]
    constructor
    · intro node _
      simp only [List.map_map, Function.comp_def, List.map_const']
      exact List.pairwise_replicate.mpr (.inr le_rfl)
    · refine climbs.imp fun before => ?_
      simp only [List.map_map, Function.comp_def, List.mem_map]
      rintro _ ⟨_, _, rfl⟩ _ ⟨_, _, rfl⟩
      exact before.le
  exact outputs.sublist (List.filter_sublist.map _)

theorem Sorting.turn {nodes : List GraphNode} {state : KahnState} (sorting : Sorting nodes state)
    (distinct : (nodes.map GraphNode.key).Nodup) (exist : InputsExist nodes) {node : String}
    {rest : List String} {rng : Option SplitMix64}
    (drawn : state.queue.Perm (node :: rest)) (first : rng = none → state.queue = node :: rest)
    (unseeded : rng = none → state.rng = none) :
    ∃ inDegree queue,
      release (targets (transformEdges nodes) node) state.inDegree rest = some (inDegree, queue) ∧
        Sorting nodes ⟨queue, state.topoOrder ++ [node], inDegree, rng⟩ := by
  have fresh : node ∉ state.topoOrder := fun inside =>
    (List.nodup_append.mp sorting.frontier.nodup).2.2 node inside node
      (drawn.mem_iff.mpr (by simp)) rfl
  have counts (k : String) : (targets (transformEdges nodes) node).count k =
      (inputsOf nodes k).count node := by
    rw [count_targets, sources_transformEdges]
  have neighbor {k : String} (inside : k ∈ targets (transformEdges nodes) node) :
      k ∈ nodes.map GraphNode.key ∧ node ∈ inputsOf nodes k := by
    rw [mem_targets_iff, ← mem_sources_iff, sources_transformEdges] at inside
    exact ⟨(exist.known node k inside).2, inside⟩
  obtain ⟨after, new, released, afterCounts, sublist, nodup, members⟩ :=
    release_spec (fun k inside =>
      ⟨_, sorting.counted k (neighbor inside).1, by rw [counts, countP_take fresh]; omega⟩) rest
  have isNew (k : String) : k ∈ new ↔
    k ∈ nodes.map GraphNode.key ∧ node ∈ inputsOf nodes k ∧
      ∀ a ∈ inputsOf nodes k, a ∈ state.topoOrder ++ [node] := by
    rw [members, counts]
    constructor
    · rintro ⟨inside, settled⟩
      obtain ⟨known, feeds⟩ := neighbor inside
      rw [sorting.counted k known, Option.some.injEq, countP_take fresh] at settled
      exact ⟨known, feeds, countP_eq_zero_iff.mp (by omega)⟩
    · rintro ⟨known, feeds, settled⟩
      refine ⟨?_, ?_⟩
      · rw [mem_targets_iff, ← mem_sources_iff, sources_transformEdges]
        exact feeds
      · rw [sorting.counted k known, countP_take fresh, countP_eq_zero_iff.mpr settled,
          Nat.zero_add]
  refine ⟨after, rest ++ new, released, sorting.frontier.take drawn nodup isNew, ?_, ?_⟩
  · intro k known
    change after k = _
    rw [afterCounts, sorting.counted k known, counts, countP_take fresh, Option.map_some,
      Nat.add_sub_cancel]
  · intro without
    have frontier := sorting.frontier
    have served := sorting.served (unseeded without)
    rw [first without] at frontier served
    refine frontier.precedes_take served (fun k inside => ((isNew k).mp inside).2) ?_
    refine (((pairwise_targets distinct node).sublist sublist).and nodup).imp_of_mem ?_
    rintro a b insideA - ⟨before, different⟩
    have known := ((isNew a).mp insideA).1
    exact lt_of_le_of_ne before fun same => different ((List.idxOf_inj known).mp same)

/-- With a turn for every record left, the loop ends with an empty queue. -/
theorem kahn_spec {nodes : List GraphNode} (distinct : (nodes.map GraphNode.key).Nodup)
    (exist : InputsExist nodes) {adjacency : HashMap (List String)}
    (adjacent : ∀ k ∈ nodes.map GraphNode.key,
      (adjacency k).getD [] = targets (transformEdges nodes) k)
    {turns : ℕ} {state : KahnState} (sorting : Sorting nodes state)
    (enough : nodes.length ≤ state.topoOrder.length + turns) :
    ∃ last, kahn adjacency turns state = some last ∧ Sorting nodes last ∧ last.queue = [] ∧
      (state.rng = none ↔ last.rng = none) := by
  induction turns generalizing state with
  | zero =>
      have full := sorting.frontier.length_le
      rw [List.length_map] at full
      have empty : state.queue = [] := List.eq_nil_of_length_eq_zero (by omega)
      rcases draw_cases state.rng state.queue with
        ⟨_, ended⟩ | ⟨node, rest, rng, _, perm, _⟩
      · exact ⟨state, by rw [kahn, ended], sorting, empty, Iff.rfl⟩
      · rw [empty] at perm
        exact absurd perm (by simp)
  | succ turns inductionHypothesis =>
      rcases draw_cases state.rng state.queue with
        ⟨empty, ended⟩ | ⟨node, rest, rng, drawn, perm, first, seeded⟩
      · exact ⟨state, by rw [kahn, ended], sorting, empty, Iff.rfl⟩
      · have known : node ∈ nodes.map GraphNode.key :=
          ((sorting.frontier.ready node).mp
            (List.mem_append_right _ (perm.mem_iff.mpr (by simp)))).1
        obtain ⟨inDegree, queue, released, sorted⟩ :=
          sorting.turn distinct exist perm (fun without => first (seeded.mpr without)) seeded.mpr
        obtain ⟨last, ran, lastSorted, empty, same⟩ :=
          inductionHypothesis sorted (by simp; omega)
        refine ⟨last, ?_, lastSorted, empty, seeded.trans same⟩
        rw [kahn, drawn]
        simp only [adjacent node known, released]
        exact ran

theorem missingInput_eq_none_iff {allKeys : List String} {nodes : List GraphNode}
    (keySet : allKeys.Perm (nodes.map GraphNode.key)) :
    missingInput allKeys nodes = none ↔ InputsExist nodes := by
  simp only [missingInput, List.find?_eq_none, transformEdges_eq, List.mem_flatMap, List.mem_map,
    InputsExist, keySet.mem_iff, decide_eq_true_eq, not_not]
  constructor
  · intro found node inside input isInput
    simpa using found (input, node.key) ⟨node, inside, input, isInput, rfl⟩
  · rintro exist _ ⟨node, inside, input, isInput, rfl⟩
    simpa using exist node inside input isInput

theorem sorting_start {allKeys : List String} {nodes : List GraphNode}
    (distinct : (nodes.map GraphNode.key).Nodup)
    (keySet : allKeys.Perm (nodes.map GraphNode.key)) (rng : Option SplitMix64) :
    Sorting nodes ⟨(nodes.map GraphNode.key).filter fun key =>
      inDegrees allKeys nodes key = some 0, [], inDegrees allKeys nodes, rng⟩ := by
  have degrees : ∀ k ∈ nodes.map GraphNode.key,
      inDegrees allKeys nodes k = some (inputsOf nodes k).length := fun k known =>
    inDegrees_eq (keySet.mem_iff.mpr known) nodes
  have free (k : String) (known : k ∈ nodes.map GraphNode.key) :
      inDegrees allKeys nodes k = some 0 ↔ inputsOf nodes k = [] := by
    rw [degrees k known, Option.some.injEq, List.length_eq_zero_iff]
  have start (k : String) : k ∈ (nodes.map GraphNode.key).filter
      (fun key => inDegrees allKeys nodes key = some 0) ↔
        k ∈ nodes.map GraphNode.key ∧ inputsOf nodes k = [] := by
    rw [List.mem_filter, decide_eq_true_eq]
    exact and_congr_right (free k)
  refine ⟨frontier_start (distinct.filter _) start, fun k known => ?_, fun _ => ?_⟩
  · change inDegrees allKeys nodes k = _
    rw [degrees k known]
    simp
  · refine precedes_start (fun k inside => ((start k).mp inside).2) ?_
    exact (pairwise_idxOf distinct).sublist List.filter_sublist

theorem buildAndValidateSeeded_ends {nodes : List GraphNode}
    (distinct : (nodes.map GraphNode.key).Nodup) {allKeys : List String}
    (keySet : allKeys.Perm (nodes.map GraphNode.key)) (exist : InputsExist nodes)
    (seed : Option UInt64) :
    ∃ last, Sorting nodes last ∧ last.queue = [] ∧ (seed = none → last.rng = none) ∧
      buildAndValidateSeeded allKeys nodes seed =
        if last.topoOrder.length ≠ (nodes.map GraphNode.key).length then
          some (.error (.cyclicDependency ((nodes.map GraphNode.key).filter fun key =>
            0 < (last.inDegree key).getD 0)))
        else some (.ok ⟨nodes, nodes.flatMap nodeEdges, last.topoOrder⟩) := by
  have adjacent : ∀ k ∈ nodes.map GraphNode.key,
      (adjacencies allKeys nodes k).getD [] = targets (transformEdges nodes) k :=
    fun k known => adjacencies_eq (keySet.mem_iff.mpr known) nodes
  obtain ⟨last, ran, sorted, empty, seeded⟩ := kahn_spec distinct exist adjacent
    (sorting_start distinct keySet (seed.map SplitMix64.mk))
      (by simp : nodes.length ≤ _ + nodes.length)
  refine ⟨last, sorted, empty, fun without => seeded.mp (by simp [without]), ?_⟩
  rw [buildAndValidateSeeded, (missingInput_eq_none_iff keySet).mpr exist]
  simp only [ran, keySet.length_eq]

structure Sorted (nodes : List GraphNode) (seed : Option UInt64) (order : List String) : Prop where
  perm : order.Perm (nodes.map GraphNode.key)
  inputsFirst : InputsFirst (inputsOf nodes) order
  /-- Without a seed, earlier ready records come first, and records ready at once
  stand in registration order. -/
  ties : seed = none →
    order.Pairwise (Precedes (inputsOf nodes) (nodes.map GraphNode.key).idxOf order)

/-- The graph is built exactly if all inputs exist and none depends on itself, and its
order is then sorted, in whatever order the key set is iterated. -/
theorem buildAndValidateSeeded_sorts {nodes : List GraphNode}
    (distinct : (nodes.map GraphNode.key).Nodup) {allKeys : List String}
    (keySet : allKeys.Perm (nodes.map GraphNode.key)) (seed : Option UInt64) :
    ∃ result, buildAndValidateSeeded allKeys nodes seed = some result ∧
      ((∃ graph, result = .ok graph) ↔ InputsExist nodes ∧ Acyclic (inputsOf nodes)) ∧
      ∀ graph, result = .ok graph →
        graph.nodes = nodes ∧ Sorted nodes seed graph.topoOrder := by
  cases missing : missingInput allKeys nodes with
  | some edge =>
      have absent : ¬ InputsExist nodes := fun exist => by
        rw [(missingInput_eq_none_iff keySet).mpr exist] at missing
        exact nomatch missing
      rw [buildAndValidateSeeded, missing]
      exact ⟨_, rfl, by simp [absent], fun _ same => nomatch same⟩
  | none =>
      have exist := (missingInput_eq_none_iff keySet).mp missing
      obtain ⟨last, sorted, empty, seeded, ended⟩ :=
        buildAndValidateSeeded_ends distinct keySet exist seed
      have frontier := sorted.frontier
      rw [empty] at frontier
      have whole := frontier.length_eq_iff distinct exist.known
      rw [ended]
      split_ifs with short
      · refine ⟨_, rfl, ⟨?_, fun both => absurd (whole.mpr both.2) short⟩,
          fun _ same => nomatch same⟩
        rintro ⟨graph, same⟩
        exact nomatch same
      · rw [not_not] at short
        refine ⟨_, rfl, ⟨fun _ => ⟨exist, whole.mp short⟩, fun _ => ⟨_, rfl⟩⟩, ?_⟩
        rintro graph same
        obtain rfl := Except.ok.inj same
        refine ⟨rfl, frontier.perm_of_length short, frontier.inputsFirst, fun without => ?_⟩
        have served := sorted.served (seeded without)
        rwa [empty, List.append_nil] at served

/-- A join fed twice by one record and once by a transform of it. -/
def doubledNodes : List GraphNode :=
  [⟨"sum", .transformJoin ["a", "double", "a"], "none", none, 0, false, [], none⟩,
    ⟨"double", .transform "a", "none", none, 1, true, ["mqtt://plant/a"], none⟩,
    ⟨"a", .source, "single_latest", none, 0, false, [], none⟩]

theorem buildAndValidateSeeded_sorts_doubled :
    ∃ result, buildAndValidateSeeded ["double", "a", "sum"] doubledNodes (some 7) =
      some result ∧
      ((∃ graph, result = .ok graph) ↔
        InputsExist doubledNodes ∧ Acyclic (inputsOf doubledNodes)) ∧
      ∀ graph, result = .ok graph →
        graph.nodes = doubledNodes ∧ Sorted doubledNodes (some 7) graph.topoOrder :=
  buildAndValidateSeeded_sorts (by decide) (by decide) (some 7)

end DependencyGraph

end AimDb
