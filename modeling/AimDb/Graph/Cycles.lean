import AimDb.Graph.TopoOrder

/-!
# What a reported cycle names

The error lists the records that were never taken: those on a cycle, and those that
depend on one.
-/

namespace AimDb.DependencyGraph

open AimDb.Topological

structure NamesCycle (allKeys : List String) (nodes : List GraphNode) (seed : Option UInt64)
    (records : List String) : Prop where
  reported : buildAndValidateSeeded allKeys nodes seed = some (.error (.cyclicDependency records))
  onCycle : ∀ k ∈ records, OnCycle (inputsOf nodes) k
  listed : ∀ k, OnCycle (inputsOf nodes) k → k ∈ records

theorem onCycle_feeds {nodes : List GraphNode} {k : String} (cycle : OnCycle (inputsOf nodes) k) :
    ∃ a, a ∈ inputsOf nodes k := by
  obtain ⟨a, -, feeds⟩ := Relation.TransGen.tail'_iff.mp cycle
  exact ⟨a, feeds⟩

section

variable {nodes : List GraphNode} {last : KahnState}

/-- Inputs remain to be counted exactly for the records that were not taken. -/
theorem Sorting.remains_iff (sorting : Sorting nodes last) (empty : last.queue = []) {k : String}
    (known : k ∈ nodes.map GraphNode.key) :
    0 < (last.inDegree k).getD 0 ↔ k ∉ last.topoOrder := by
  have ready := sorting.frontier.ready k
  rw [empty, List.append_nil] at ready
  rw [sorting.counted k known, Option.getD_some, ready, Nat.pos_iff_ne_zero, ne_eq,
    countP_eq_zero_iff]
  exact not_congr ⟨fun settled => ⟨known, settled⟩, And.right⟩

theorem Sorting.left_iff (sorting : Sorting nodes last) (empty : last.queue = [])
    (exist : InputsExist nodes) {k : String} (known : k ∈ nodes.map GraphNode.key) :
    k ∉ last.topoOrder ↔
      ∃ a, OnCycle (inputsOf nodes) a ∧ Relation.ReflTransGen (Feeds (inputsOf nodes)) a k := by
  have frontier := sorting.frontier
  rw [empty] at frontier
  constructor
  · exact frontier.cycle_of_missing (fun a b feeds => (exist.known a b feeds).1) known
  · rintro ⟨a, cycle, path⟩ taken
    have first := sorting.frontier.inputsFirst
    exact first.not_mem_of_onCycle cycle (first.mem_of_feeds path taken)

end

/-- The error names the cycle exactly if no record off the cycles takes an input from one. -/
theorem namesCycle_iff {nodes : List GraphNode} (distinct : (nodes.map GraphNode.key).Nodup)
    {allKeys : List String} (keySet : allKeys.Perm (nodes.map GraphNode.key))
    (exist : InputsExist nodes) (cyclic : ¬ Acyclic (inputsOf nodes)) (seed : Option UInt64) :
    (∃ records, NamesCycle allKeys nodes seed records) ↔
      ∀ a b, OnCycle (inputsOf nodes) a → a ∈ inputsOf nodes b →
      OnCycle (inputsOf nodes) b := by
  obtain ⟨last, sorting, empty, -, ended⟩ :=
    buildAndValidateSeeded_ends distinct keySet exist seed
  have frontier := sorting.frontier
  rw [empty] at frontier
  rw [if_pos fun long => cyclic ((frontier.length_eq_iff distinct exist.known).mp long)] at ended
  have left (k : String) : k ∈ (nodes.map GraphNode.key).filter
      (fun key => 0 < (last.inDegree key).getD 0) ↔ k ∈ nodes.map GraphNode.key ∧
        ∃ a, OnCycle (inputsOf nodes) a ∧
        Relation.ReflTransGen (Feeds (inputsOf nodes)) a k := by
    rw [List.mem_filter, decide_eq_true_eq]
    exact and_congr_right fun known =>
      (sorting.remains_iff empty known).trans (sorting.left_iff empty exist known)
  have known {k : String} (cycle : OnCycle (inputsOf nodes) k) : k ∈ nodes.map GraphNode.key := by
    obtain ⟨a, feeds⟩ := onCycle_feeds cycle
    exact (exist.known a k feeds).2
  constructor
  · rintro ⟨records, names⟩ a b cycle feeds
    have same := Option.some.inj (ended.symm.trans names.reported)
    obtain rfl := DbError.cyclicDependency.inj (Except.error.inj same)
    exact names.onCycle b ((left b).mpr ⟨(exist.known a b feeds).2, a, cycle, .single feeds⟩)
  · intro closed
    refine ⟨_, ended, fun k isLeft => ?_,
      fun k cycle => (left k).mpr ⟨known cycle, k, cycle, .refl⟩⟩
    obtain ⟨-, a, cycle, path⟩ := (left k).mp isLeft
    clear isLeft
    induction path with
    | refl => exact cycle
    | tail _ feeds inductionHypothesis => exact closed _ _ inductionHypothesis feeds

/-- Two records that feed each other, and one that one of them feeds. -/
def tailedNodes : List GraphNode :=
  [⟨"left", .transform "right", "none", none, 0, false, [], none⟩,
    ⟨"right", .transform "left", "none", none, 0, false, [], none⟩,
    ⟨"tail", .transform "left", "none", none, 0, false, [], none⟩]

theorem tail_named : (tailedNodes.map GraphNode.key).Nodup ∧ InputsExist tailedNodes ∧
    ¬ Acyclic (inputsOf tailedNodes) ∧
      ¬ ∃ records, NamesCycle ["left", "right", "tail"] tailedNodes none records := by
  refine ⟨by decide, ?_, fun acyclic => ?_, ?_⟩
  · exact (by decide : ∀ node ∈ tailedNodes, ∀ input ∈ node.inputs,
      input ∈ tailedNodes.map GraphNode.key)
  · have forth : Feeds (inputsOf tailedNodes) "left" "right" :=
      (by decide : "left" ∈ inputsOf tailedNodes "right")
    have back : Feeds (inputsOf tailedNodes) "right" "left" :=
      (by decide : "right" ∈ inputsOf tailedNodes "left")
    exact acyclic "left" (.head forth (.single back))
  · rintro ⟨records, names⟩
    have ended : buildAndValidateSeeded ["left", "right", "tail"] tailedNodes none =
        some (.error (.cyclicDependency ["left", "right", "tail"])) := rfl
    have same := Option.some.inj (ended.symm.trans names.reported)
    obtain rfl := DbError.cyclicDependency.inj (Except.error.inj same)
    obtain ⟨b, feeds, -⟩ := Relation.TransGen.head'_iff.mp (names.onCycle "tail" (by decide))
    obtain ⟨node, inside, -, isInput⟩ := mem_inputsOf_iff.mp feeds
    exact absurd isInput ((by decide : ∀ node ∈ tailedNodes,
      "tail" ∉ node.inputs) node inside)

def pairNodes : List GraphNode := tailedNodes.take 2

theorem namesCycle_iff_pair :
    ∃ records, NamesCycle ["right", "left"] pairNodes (some 7) records := by
  have exist : ∀ node ∈ pairNodes, ∀ input ∈ node.inputs,
      input ∈ pairNodes.map GraphNode.key := by
    decide
  have forth : Feeds (inputsOf pairNodes) "left" "right" :=
    (by decide : "left" ∈ inputsOf pairNodes "right")
  have back : Feeds (inputsOf pairNodes) "right" "left" :=
    (by decide : "right" ∈ inputsOf pairNodes "left")
  refine (namesCycle_iff (by decide) (by decide) exist
    (fun acyclic => acyclic "left" (.head forth (.single back))) (some 7)).mpr ?_
  intro a b _ feeds
  obtain ⟨node, inside, rfl, -⟩ := mem_inputsOf_iff.mp feeds
  rcases (by decide : ∀ node ∈ pairNodes, node.key = "left" ∨
    node.key = "right") node inside with
    same | same
  · rw [same]
    exact .head forth (.single back)
  · rw [same]
    exact .head back (.single forth)

end AimDb.DependencyGraph
