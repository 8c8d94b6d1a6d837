import Mathlib.Data.PFunctor.Univariate.M
import Mathlib.Data.List.Forall2
import Mathlib.Tactic.Common

/-!
# Unrolling terms with back references

A system of states, each with a label and successors, unrolls to a tree of any
depth.  A term is a finite text of such a tree: where a state comes again above
itself it has a reference, counted in the open levels, instead of a subterm.
-/

namespace AimDb.Unrolling

universe u

variable {L : Type} {S : Type} {T : Type}

def signature (L : Type) : PFunctor.{0, 0} := ⟨L × ℕ, fun node => Fin node.2⟩

/-- Finitely branching trees of any depth. -/
def Unrolled (L : Type) : Type := (signature L).M

def layer (node : L × List S) : signature L S := ⟨(node.1, node.2.length), node.2.get⟩

noncomputable def unroll (view : S → L × List S) : S → Unrolled L :=
  PFunctor.M.corec fun state => layer (view state)

theorem dest_unroll (view : S → L × List S) (state : S) :
    (unroll view state).dest =
      ⟨((view state).1, (view state).2.length), fun i => unroll view ((view state).2.get i)⟩ :=
  PFunctor.M.dest_corec _ _

theorem layer_cast {X : Type} (label : L) {n m : ℕ} (same : n = m) (children : Fin m → X) :
    (⟨(label, m), children⟩ : signature L X) =
        ⟨(label, n), fun i => children (i.cast same)⟩ := by
  subst same
  rfl

/-- States that show the same labels, now and behind every successor, unroll to the
same tree. -/
theorem unroll_eq_of_related {view : S → L × List S} {view' : T → L × List T}
    (Related : S → T → Prop)
    (stepwise : ∀ state state', Related state state' →
      (view state).1 = (view' state').1 ∧ List.Forall₂ Related (view state).2 (view' state').2)
    {state : S} {state' : T} (related : Related state state') :
    unroll view state = unroll view' state' := by
  apply PFunctor.M.bisim fun tree tree' =>
    ∃ state state', Related state state' ∧ tree = unroll view state ∧
      tree' = unroll view' state'
  · rintro _ _ ⟨state, state', related, rfl, rfl⟩
    obtain ⟨label, children⟩ := stepwise state state' related
    obtain ⟨same, pairwise⟩ := List.forall₂_iff_get.mp children
    refine ⟨_, _, _, dest_unroll view state, ?_, fun i =>
      ⟨_, _, pairwise i.1 i.2 (same ▸ i.2), rfl, rfl⟩⟩
    rw [dest_unroll, label]
    exact layer_cast _ same _
  · exact ⟨state, state', related, rfl, rfl⟩

inductive Part (view : S → L × List S) : S → S → Prop
  | self (state : S) : Part view state state
  | next {state child part} (isChild : child ∈ (view state).2) (further : Part view child part) :
      Part view state part

def Whole (view : S → L × List S) (hole : L) (state : S) : Prop :=
  ∀ part, Part view state part → (view part).1 ≠ hole

theorem Whole.child {view : S → L × List S} {hole : L} {state child : S}
    (whole : Whole view hole state) (isChild : child ∈ (view state).2) : Whole view hole child :=
  fun part isPart => whole part (.next isChild isPart)

inductive Term (L : Type) where
  /-- So many open levels up, the innermost being one. -/
  | back (levels : ℕ)
  | node (label : L) (children : List (Term L))

/-- The open levels around a term, the innermost first. -/
abbrev Term.Levels (L : Type) := List (L × List (Term L))

section

variable (opens : L → Bool) (hole : L)

def Term.under (levels : Levels L) (label : L) (children : List (Term L)) :
    L × List (Levels L × Term L) :=
  (label, children.map fun child =>
    (if opens label then (label, children) :: levels else levels, child))

/-- What a term shows: a reference shows what it refers to, where that stands. -/
def Term.view : Levels L × Term L → L × List (Levels L × Term L)
  | (levels, .node label children) => under opens levels label children
  | (levels, .back n) =>
      match levels.drop (n - 1) with
      | [] => (hole, [])
      | (label, children) :: outer => under opens outer label children

noncomputable def Term.unroll (term : Term L) : Unrolled L :=
  Unrolling.unroll (Term.view opens hole) ([], term)

inductive Inlines (view : S → L × List S) : List S → S → Term L → Prop
  | back {stack state i} (found : stack[i]? = some state) :
      Inlines view stack state (.back (i + 1))
  | node {stack state label states terms} (shows : view state = (label, states))
      (whole : label ≠ hole) (sameLength : states.length = terms.length)
      (inlined : ∀ pair ∈ states.zip terms,
        Inlines view (if opens label then state :: stack else stack) pair.1 pair.2) :
      Inlines view stack state (.node label terms)

inductive Opened (view : S → L × List S) : List S → Term.Levels L → Prop
  | nil : Opened view [] []
  | cons {stack levels state label states terms} (shows : view state = (label, states))
      (whole : label ≠ hole) (opening : opens label = true)
      (sameLength : states.length = terms.length)
      (inlined : ∀ pair ∈ states.zip terms,
        Inlines opens hole view (state :: stack) pair.1 pair.2)
      (outer : Opened view stack levels) :
      Opened view (state :: stack) ((label, terms) :: levels)

variable {opens} {hole} {view : S → L × List S}

theorem Inlines.of_forall₂ {stack : List S} {state : S} {label : L} {states : List S}
    {terms : List (Term L)} (shows : view state = (label, states)) (whole : label ≠ hole)
    (inlined : List.Forall₂
      (Inlines opens hole view (if opens label then state :: stack else stack)) states terms) :
    Inlines opens hole view stack state (.node label terms) :=
  .node shows whole inlined.length_eq fun _ isPair => List.forall₂_zip inlined isPair

def Stands (opens : L → Bool) (hole : L) (view : S → L × List S) (state : S)
    (place : Term.Levels L × Term L) : Prop :=
  ∃ stack, Opened opens hole view stack place.1 ∧ Inlines opens hole view stack state place.2

theorem Opened.drop {stack : List S} {levels : Term.Levels L}
    (opened : Opened opens hole view stack levels)
    (n : ℕ) : Opened opens hole view (stack.drop n) (levels.drop n) := by
  induction n generalizing stack levels with
  | zero => exact opened
  | succ n inductionHypothesis =>
      cases opened with
      | nil => exact .nil
      | cons shows whole opening sameLength inlined outer => exact inductionHypothesis outer

theorem stands_under {stack : List S} {levels : Term.Levels L} {state : S} {label : L}
    {states : List S} {terms : List (Term L)} (opened : Opened opens hole view stack levels)
    (shows : view state = (label, states)) (whole : label ≠ hole)
    (sameLength : states.length = terms.length)
    (inlined : ∀ pair ∈ states.zip terms,
      Inlines opens hole view (if opens label then state :: stack else stack) pair.1 pair.2) :
    ((view state).1 = (Term.under opens levels label terms).1 ∧ (view state).1 ≠ hole) ∧
      List.Forall₂ (Stands opens hole view) (view state).2
        (Term.under opens levels label terms).2 := by
  rw [shows]
  refine ⟨⟨rfl, whole⟩, ?_⟩
  rw [Term.under, List.forall₂_map_right_iff, List.forall₂_iff_zip]
  refine ⟨sameLength, fun {child term} isPair => ?_⟩
  have child := inlined _ isPair
  cases opening : opens label with
  | false =>
      rw [opening] at child
      exact ⟨stack, opened, child⟩
  | true =>
      rw [opening] at child inlined
      exact ⟨state :: stack, .cons shows whole opening sameLength inlined opened, child⟩

theorem Stands.step {state : S} {place : Term.Levels L × Term L}
    (stands : Stands opens hole view state place) :
    ((view state).1 = (Term.view opens hole place).1 ∧ (view state).1 ≠ hole) ∧
      List.Forall₂ (Stands opens hole view) (view state).2 (Term.view opens hole place).2 := by
  obtain ⟨levels, term⟩ := place
  obtain ⟨stack, opened, inlines⟩ := stands
  cases inlines with
  | node shows whole sameLength inlined => exact stands_under opened shows whole sameLength inlined
  | @back _ _ i found =>
      have here := opened.drop i
      have first : stack.drop i = state :: stack.drop (i + 1) := by
        obtain ⟨bound, isState⟩ := List.getElem?_eq_some_iff.mp found
        rw [List.drop_eq_getElem_cons bound, isState]
      rw [first] at here
      rw [Term.view, Nat.add_sub_cancel]
      generalize levels.drop i = found at here
      cases here with
      | cons shows whole opening sameLength inlined outer =>
          apply stands_under outer shows whole sameLength
          rw [if_pos opening]
          exact inlined

theorem unroll_eq_of_inlines {state : S} {term : Term L}
    (inlines : Inlines opens hole view [] state term) :
    unroll view state = term.unroll opens hole :=
  unroll_eq_of_related (Stands opens hole view)
    (fun _ _ stands => ⟨stands.step.1.1, stands.step.2⟩) ⟨[], .nil, inlines⟩

theorem whole_of_inlines {state : S} {term : Term L}
    (inlines : Inlines opens hole view [] state term) : Whole view hole state := by
  intro part isPart
  have stands : ∃ place, Stands opens hole view state place :=
    ⟨([], term), [], .nil, inlines⟩
  clear inlines
  induction isPart with
  | self state => exact stands.elim fun _ stands => stands.step.1.2
  | next isChild _ inductionHypothesis =>
      obtain ⟨place, stands⟩ := stands
      obtain ⟨index, inside, rfl⟩ := List.getElem_of_mem isChild
      apply inductionHypothesis
      obtain ⟨same, pairwise⟩ := List.forall₂_iff_get.mp stands.step.2
      exact ⟨_, pairwise index inside (same ▸ inside)⟩

end

end AimDb.Unrolling
