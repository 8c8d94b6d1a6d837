import Mathlib.Data.Fintype.Card
import Mathlib.Data.List.Nodup
import Mathlib.Data.List.Perm.Subperm
import Mathlib.Data.Set.Finite.Basic
import Mathlib.Order.WellFounded
import Mathlib.Logic.Relation

/-!
# Taking nodes whose inputs have been taken

A frontier is an order of nodes taken so far and a queue of nodes that are ready.
Taking any queued node keeps it one, and when the queue runs empty the order is
whole exactly if the inputs have no cycle.
-/

namespace AimDb.Topological

variable {α : Type*} {inputs : α → List α} {nodes : List α}

/-- `a` is an input of `b`. -/
def Feeds (inputs : α → List α) (a b : α) : Prop := a ∈ inputs b

/-- No node feeds itself, through any number of others. -/
def Acyclic (inputs : α → List α) : Prop := ∀ a, ¬ Relation.TransGen (Feeds inputs) a a

def InputsFirst (inputs : α → List α) (order : List α) : Prop :=
  ∀ front node back, order = front ++ node :: back → ∀ a ∈ inputs node, a ∈ front

structure Frontier (inputs : α → List α) (nodes order queue : List α) : Prop where
  nodup : (order ++ queue).Nodup
  ready : ∀ k, k ∈ order ++ queue ↔ k ∈ nodes ∧ ∀ a ∈ inputs k, a ∈ order
  inputsFirst : InputsFirst inputs order

theorem frontier_start {queue : List α} (nodup : queue.Nodup)
    (ready : ∀ k, k ∈ queue ↔ k ∈ nodes ∧ inputs k = []) :
    Frontier inputs nodes [] queue := by
  refine ⟨by simpa using nodup, fun k => ?_, ?_⟩
  · simp [ready, List.eq_nil_iff_forall_not_mem]
  · intro front node back split
    exact absurd split (by simp)

theorem InputsFirst.snoc {order : List α} {node : α} (first : InputsFirst inputs order)
    (ready : ∀ a ∈ inputs node, a ∈ order) : InputsFirst inputs (order ++ [node]) := by
  intro front taken back split a feeds
  rcases List.eq_nil_or_concat back with rfl | ⟨back, last, rfl⟩
  · obtain ⟨rfl, rfl⟩ := List.append_inj' split rfl |>.imp_right (List.cons.inj · |>.1)
    exact ready a feeds
  · rw [List.concat_eq_append, ← List.cons_append, ← List.append_assoc] at split
    obtain ⟨rfl, -⟩ := List.append_inj' split rfl
    exact first front taken back rfl a feeds

theorem Frontier.take {order queue rest new : List α} {node : α}
    (frontier : Frontier inputs nodes order queue) (drawn : queue.Perm (node :: rest))
    (nodup : new.Nodup)
    (released : ∀ k, k ∈ new ↔ k ∈ nodes ∧ node ∈ inputs k ∧
      ∀ a ∈ inputs k, a ∈ order ++ [node]) :
    Frontier inputs nodes (order ++ [node]) (rest ++ new) := by
  have moved : (order ++ queue).Perm ((order ++ [node]) ++ rest) := by
    simpa using drawn.append_left order
  have distinct := frontier.nodup
  have old : ((order ++ [node]) ++ rest).Nodup := moved.nodup_iff.mp distinct
  have nodeQueued : node ∈ order ++ queue := moved.mem_iff.mpr (by simp)
  have fresh : node ∉ order := by
    intro inside
    rw [List.append_assoc] at old
    exact (List.nodup_append.mp old).2.2 node inside node (by simp) rfl
  refine ⟨?_, fun k => ?_, frontier.inputsFirst.snoc ((frontier.ready node).mp nodeQueued).2⟩
  · rw [← List.append_assoc, List.nodup_append]
    refine ⟨old, nodup, ?_⟩
    rintro k inside _ isNew rfl
    have settled := (frontier.ready k).mp (moved.mem_iff.mpr inside)
    exact fresh (settled.2 node ((released k).mp isNew).2.1)
  · rw [← List.append_assoc, List.mem_append]
    constructor
    · rintro (inside | isNew)
      · obtain ⟨known, settled⟩ := (frontier.ready k).mp (moved.mem_iff.mpr inside)
        exact ⟨known, fun a feeds => List.mem_append_left _ (settled a feeds)⟩
      · obtain ⟨known, -, settled⟩ := (released k).mp isNew
        exact ⟨known, settled⟩
    · rintro ⟨known, settled⟩
      by_cases feeds : node ∈ inputs k
      · exact .inr ((released k).mpr ⟨known, feeds, settled⟩)
      · refine .inl (moved.mem_iff.mp ((frontier.ready k).mpr ⟨known, fun a inside => ?_⟩))
        rcases List.mem_append.mp (settled a inside) with early | last
        · exact early
        · rw [List.mem_singleton] at last
          exact absurd (last ▸ inside) feeds

theorem Frontier.length_le {order queue : List α} (frontier : Frontier inputs nodes order queue) :
    order.length + queue.length ≤ nodes.length := by
  rw [← List.length_append]
  exact (List.subperm_of_subset frontier.nodup fun k inside =>
    ((frontier.ready k).mp inside).1).length_le

theorem acyclic_of_inputsFirst [DecidableEq α] {order : List α}
    (first : InputsFirst inputs order) (whole : ∀ a b, a ∈ inputs b → b ∈ order) :
    Acyclic inputs := by
  have ordered : ∀ a b, Feeds inputs a b → order.idxOf a < order.idxOf b := by
    intro a b feeds
    obtain ⟨front, back, split, fresh⟩ := List.eq_append_cons_of_mem (whole a b feeds)
    have early := first front b back split a feeds
    rw [split, List.idxOf_append_of_mem early, List.idxOf_append_of_notMem fresh,
      List.idxOf_cons_self]
    exact (List.idxOf_lt_length_iff.mpr early).trans_le (Nat.le_add_right _ _)
  intro a cycle
  have climbs : Relation.TransGen (· < ·) (order.idxOf a) (order.idxOf a) :=
    Relation.TransGen.lift order.idxOf ordered a a cycle
  rw [Relation.transGen_eq_self] at climbs
  exact lt_irrefl _ climbs

/-- The node feeds itself, directly or through others. -/
def OnCycle (inputs : α → List α) (a : α) : Prop := Relation.TransGen (Feeds inputs) a a

theorem Frontier.cycle_of_missing {order : List α} (frontier : Frontier inputs nodes order [])
    (inside : ∀ a b, a ∈ inputs b → a ∈ nodes) {k : α} (known : k ∈ nodes)
    (missing : k ∉ order) :
    ∃ a, OnCycle inputs a ∧ Relation.ReflTransGen (Feeds inputs) a k := by
  by_contra none
  push Not at none
  let Upstream := { a // a ∈ nodes ∧ Relation.ReflTransGen (Feeds inputs) a k }
  let Before (a b : Upstream) : Prop := Relation.TransGen (Feeds inputs) a b
  have : IsTrans Upstream Before := ⟨fun _ _ _ => Relation.TransGen.trans⟩
  have : Std.Irrefl Before := ⟨fun a cycle => none a cycle a.property.2⟩
  have : Finite Upstream :=
    ((List.finite_toSet nodes).subset fun a isUp => isUp.1).to_subtype
  have wellFounded : WellFounded Before := Finite.wellFounded_of_trans_of_irrefl Before
  -- a first node among the missing ones would be ready
  obtain ⟨first, isMissing, least⟩ :=
    wellFounded.has_min { a : Upstream | a.val ∉ order } ⟨⟨k, known, .refl⟩, missing⟩
  refine isMissing ?_
  have ready := frontier.ready first.val
  rw [List.append_nil] at ready
  refine ready.mpr ⟨first.property.1, fun a feeds => ?_⟩
  by_contra later
  exact least ⟨a, inside a first feeds, first.property.2.head feeds⟩ later (.single feeds)

/-- When nothing is ready, what is missing from the order holds a cycle. -/
theorem Frontier.whole_of_acyclic {order : List α} (frontier : Frontier inputs nodes order [])
    (inside : ∀ a b, a ∈ inputs b → a ∈ nodes) (acyclic : Acyclic inputs) :
    ∀ k ∈ nodes, k ∈ order := by
  intro k known
  by_contra missing
  obtain ⟨a, cycle, -⟩ := frontier.cycle_of_missing inside known missing
  exact acyclic a cycle

theorem InputsFirst.mem_of_feeds {order : List α} (first : InputsFirst inputs order) {a k : α}
    (path : Relation.ReflTransGen (Feeds inputs) a k) (taken : k ∈ order) : a ∈ order := by
  induction path using Relation.ReflTransGen.head_induction_on with
  | refl => exact taken
  | @head a b feeds _ inductionHypothesis =>
      obtain ⟨front, back, rfl⟩ := List.append_of_mem inductionHypothesis
      exact List.mem_append_left _ (first front b back rfl a feeds)

theorem InputsFirst.not_mem_of_onCycle {order : List α} (first : InputsFirst inputs order) {a : α}
    (cycle : OnCycle inputs a) : a ∉ order := by
  induction order using List.reverseRecOn generalizing a with
  | nil => exact List.not_mem_nil
  | append_singleton order node inductionHypothesis =>
      have earlier : InputsFirst inputs order := by
        rintro front taken back rfl b feeds
        exact first front taken (back ++ [node]) (by simp) b feeds
      intro taken
      rcases List.mem_append.mp taken with early | last
      · exact inductionHypothesis earlier cycle early
      · obtain rfl := List.mem_singleton.mp last
        -- the input it comes back through lies on the cycle too, and was taken before
        obtain ⟨b, back, feeds⟩ := Relation.TransGen.tail'_iff.mp cycle
        have early : b ∈ order := first order a [] rfl b feeds
        exact inductionHypothesis earlier (.head' feeds back) early

theorem Frontier.length_eq_iff [DecidableEq α] {order : List α}
    (frontier : Frontier inputs nodes order []) (distinct : nodes.Nodup)
    (inside : ∀ a b, a ∈ inputs b → a ∈ nodes ∧ b ∈ nodes) :
    order.length = nodes.length ↔ Acyclic inputs := by
  have nodup := frontier.nodup
  rw [List.append_nil] at nodup
  have subset : order ⊆ nodes := fun k taken =>
    ((frontier.ready k).mp (List.mem_append_left _ taken)).1
  constructor
  · intro long
    have whole : order.Perm nodes :=
      (List.subperm_of_subset nodup subset).perm_of_length_le long.ge
    exact acyclic_of_inputsFirst frontier.inputsFirst fun a b feeds =>
      whole.mem_iff.mpr (inside a b feeds).2
  · intro acyclic
    have whole := frontier.whole_of_acyclic (fun a b feeds => (inside a b feeds).1) acyclic
    exact le_antisymm (List.subperm_of_subset nodup subset).length_le
      (List.subperm_of_subset distinct whole).length_le

theorem Frontier.perm_of_length [DecidableEq α] {order : List α}
    (frontier : Frontier inputs nodes order []) (long : order.length = nodes.length) :
    order.Perm nodes := by
  have nodup := frontier.nodup
  rw [List.append_nil] at nodup
  exact (List.subperm_of_subset nodup fun k taken =>
    ((frontier.ready k).mp (List.mem_append_left _ taken)).1).perm_of_length_le long.ge

/-- How many nodes have been taken when the last input of `k` is. -/
def readyAt [DecidableEq α] (inputs : α → List α) (order : List α) (k : α) : ℕ :=
  ((inputs k).map fun a => order.idxOf a + 1).foldr max 0

/-- `a` comes before `b`: it is ready earlier, or ranked lower among those ready at
once. -/
def Precedes [DecidableEq α] (inputs : α → List α) (rank : α → ℕ) (order : List α)
    (a b : α) :
    Prop :=
  readyAt inputs order a < readyAt inputs order b ∨
    (readyAt inputs order a = readyAt inputs order b ∧ rank a < rank b)

variable [DecidableEq α]

theorem readyAt_le_iff {order : List α} {k : α} {n : ℕ} :
    readyAt inputs order k ≤ n ↔ ∀ a ∈ inputs k, order.idxOf a < n := by
  rw [readyAt]
  induction inputs k with
  | nil => simp
  | cons a rest inductionHypothesis =>
      simp only [List.map_cons, List.foldr_cons, Nat.max_le, inductionHypothesis,
        List.forall_mem_cons, Nat.succ_le_iff]

theorem readyAt_append {order more : List α} {k : α} (settled : ∀ a ∈ inputs k, a ∈ order) :
    readyAt inputs (order ++ more) k = readyAt inputs order k := by
  rw [readyAt, readyAt]
  congr 1
  apply List.map_congr_left
  intro a feeds
  rw [List.idxOf_append_of_mem (settled a feeds)]

theorem Frontier.precedes_take {order rest new : List α} {node : α} {rank : α → ℕ}
    (frontier : Frontier inputs nodes order (node :: rest))
    (served : (order ++ node :: rest).Pairwise (Precedes inputs rank order))
    (released : ∀ k ∈ new, node ∈ inputs k ∧ ∀ a ∈ inputs k, a ∈ order ++ [node])
    (ranked : new.Pairwise fun a b => rank a < rank b) :
    ((order ++ [node]) ++ (rest ++ new)).Pairwise (Precedes inputs rank (order ++ [node])) := by
  have split : (order ++ [node]) ++ (rest ++ new) = (order ++ node :: rest) ++ new := by simp
  have settled : ∀ k ∈ order ++ node :: rest, ∀ a ∈ inputs k, a ∈ order := fun k inside =>
    ((frontier.ready k).mp inside).2
  have fresh : node ∉ order := fun inside =>
    (List.nodup_append.mp frontier.nodup).2.2 node inside node (by simp) rfl
  have newReady : ∀ k ∈ new, readyAt inputs (order ++ [node]) k = order.length + 1 := by
    intro k isNew
    obtain ⟨feeds, inside⟩ := released k isNew
    apply le_antisymm
    · rw [readyAt_le_iff]
      intro a isInput
      simpa using List.idxOf_lt_length_iff.mpr (inside a isInput)
    · have last := readyAt_le_iff.mp (le_refl (readyAt inputs (order ++ [node]) k)) node feeds
      rw [List.idxOf_append_of_notMem fresh, List.idxOf_cons_self] at last
      exact last
  rw [split, List.pairwise_append]
  refine ⟨?_, ?_, ?_⟩
  · refine served.imp_of_mem fun insideA insideB precedes => ?_
    rwa [Precedes, readyAt_append (settled _ insideA), readyAt_append (settled _ insideB)]
  · refine ranked.imp_of_mem fun isNewA isNewB lower => .inr ⟨?_, lower⟩
    rw [newReady _ isNewA, newReady _ isNewB]
  · intro a inside b isNew
    left
    rw [newReady b isNew, readyAt_append (settled a inside), Nat.lt_succ_iff, readyAt_le_iff]
    exact fun input isInput => List.idxOf_lt_length_iff.mpr (settled a inside input isInput)

theorem precedes_start {queue : List α} {rank : α → ℕ} (free : ∀ k ∈ queue, inputs k = [])
    (ranked : queue.Pairwise fun a b => rank a < rank b) :
    queue.Pairwise (Precedes inputs rank []) :=
  ranked.imp_of_mem fun insideA insideB lower =>
    .inr ⟨by simp [readyAt, free _ insideA, free _ insideB], lower⟩

end AimDb.Topological
