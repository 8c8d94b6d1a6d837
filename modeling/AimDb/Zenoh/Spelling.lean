import Mathlib.Data.List.Chain
import AimDb.Zenoh.Routes

/-!
# The subscription filter stands for the route

The canonical spelling is settled: reading it gives chunks in canonical order,
which spell the same filter and match the same keys.
-/

namespace AimDb.Zenoh

open Topic Wildcard

/-- A `*` or a `**`, captured or not. -/
def Chunk.isWild : Chunk → Bool
  | .single _ => true
  | .multi _ => true
  | _ => false

/-- Behind a `**` comes a chunk with a text of its own. -/
def Chunk.Ordered (a b : Chunk) : Prop := a.isMulti = true → b.isWild = false

theorem isChain_wildcardRun (singles : Nat) (multi : Bool) :
    (wildcardRun singles multi).IsChain Chunk.Ordered := by
  have freeSingle : ∀ b : Chunk, Chunk.Ordered (.single none) b :=
    fun b isMulti => by cases isMulti
  have run : (List.replicate singles (Chunk.single none)).IsChain Chunk.Ordered :=
    List.isChain_replicate_of_rel singles (freeSingle _)
  cases multi with
  | false => simpa [wildcardRun] using run
  | true =>
      apply run.append (List.isChain_singleton _)
      intro a isLast b _
      rw [List.eq_of_mem_replicate (List.mem_of_getLast? isLast)]
      exact freeSingle b

theorem isChain_wildcardRun_append {singles : Nat} {multi : Bool} {chunk : Chunk}
    {rest : List Chunk} (plain : chunk.isWild = false)
    (ordered : (chunk :: rest).IsChain Chunk.Ordered) :
    (wildcardRun singles multi ++ chunk :: rest).IsChain Chunk.Ordered := by
  apply (isChain_wildcardRun singles multi).append ordered
  intro a _ b isHead isMulti
  obtain rfl : chunk = b := Option.some.inj isHead
  exact plain

theorem isChain_normal (chunks : List Chunk) (singles : Nat) (multi : Bool) :
    (normal chunks singles multi).IsChain Chunk.Ordered := by
  induction chunks generalizing singles multi with
  | nil => exact isChain_wildcardRun singles multi
  | cons chunk chunks inductionHypothesis =>
      have behind : (normal chunks 0 false).IsChain Chunk.Ordered := inductionHypothesis 0 false
      cases chunk with
      | single capture => exact inductionHypothesis (singles + 1) multi
      | multi capture => exact inductionHypothesis singles true
      | literal text =>
          apply isChain_wildcardRun_append rfl
          exact List.isChain_cons.mpr ⟨fun _ _ isMulti => (by cases isMulti), behind⟩
      | glob pieces =>
          apply isChain_wildcardRun_append rfl
          exact List.isChain_cons.mpr ⟨fun _ _ isMulti => (by cases isMulti), behind⟩

theorem normal_wildcardRun (singles : Nat) (multi : Bool) (rest : List Chunk) (counted : Nat) :
    normal (wildcardRun singles multi ++ rest) counted false =
      normal rest (counted + singles) multi := by
  induction singles generalizing counted with
  | zero => cases multi <;> rfl
  | succ singles inductionHypothesis =>
      have shifted : counted + (singles + 1) = counted + 1 + singles := by omega
      rw [wildcardRun, List.replicate_succ, shifted]
      exact inductionHypothesis (counted + 1)

/-- Canonical order does not change when it is made again. -/
theorem normal_normal (chunks : List Chunk) (singles : Nat) (multi : Bool) :
    normal (normal chunks singles multi) 0 false = normal chunks singles multi := by
  induction chunks generalizing singles multi with
  | nil =>
      have counted := normal_wildcardRun singles multi [] 0
      rwa [List.append_nil, Nat.zero_add] at counted
  | cons chunk chunks inductionHypothesis =>
      cases chunk with
      | single capture => exact inductionHypothesis (singles + 1) multi
      | multi capture => exact inductionHypothesis singles true
      | literal text =>
          rw [normal, normal_wildcardRun, Nat.zero_add, normal, inductionHypothesis]
      | glob pieces =>
          rw [normal, normal_wildcardRun, Nat.zero_add, normal, inductionHypothesis]

theorem canonical_eq_join (chunks : List Chunk) :
    canonical chunks = join ['/'] ((normal chunks 0 false).map Chunk.render) := by
  rw [canonical, render_normal]

theorem canonical_normal (chunks : List Chunk) :
    canonical (normal chunks 0 false) = canonical chunks := by
  rw [canonical_eq_join, canonical_eq_join, normal_normal]

theorem Chunk.Valid.isWild_of_render {chunk : Chunk} (valid : chunk.Valid)
    (wild : chunk.render = ['*'] ∨ chunk.render = ['*', '*']) : chunk.isWild = true := by
  cases chunk with
  | single capture => rfl
  | multi capture => rfl
  | literal text =>
      have star : '*' ∈ text := by rcases wild with same | same <;> simp [show text = _ from same]
      exact absurd (.inr (.inr (.inl rfl))) (valid.2 '*' star)
  | glob pieces =>
      obtain ⟨first, middles, last, rfl, -⟩ := valid
      have dollar := dollar_mem_join first last middles
      rcases wild with same | same <;> simp [show join mark _ = _ from same] at dollar

theorem Chunk.Valid.isMulti_of_render {chunk : Chunk} (valid : chunk.Valid)
    (multi : chunk.render = ['*', '*']) : chunk.isMulti = true := by
  have wild := valid.isWild_of_render (.inr multi)
  cases chunk with
  | single capture => cases multi
  | multi capture => rfl
  | literal text => cases wild
  | glob pieces => cases wild

/-- Behind a chunk `**` of a filter comes neither `*` nor `**`. -/
def Settled (a b : Str) : Prop := a = ['*', '*'] → b ≠ ['*'] ∧ b ≠ ['*', '*']

theorem ZenohFilter.Valid.settled {f : ZenohFilter} (valid : f.Valid) :
    (f.filter.splitOn '/').IsChain Settled := by
  rw [valid.splitOn_filter, List.isChain_map]
  apply (isChain_normal f.chunks 0 false).imp_of_mem_imp
  intro a b inA inB ordered isMulti
  have plain := ordered ((valid.normal_valid inA).1.isMulti_of_render isMulti)
  have noWild : ∀ text, b.render = text → text = ['*'] ∨ text = ['*', '*'] → False := by
    rintro text rfl wild
    rw [(valid.normal_valid inB).1.isWild_of_render wild] at plain
    cases plain
  exact ⟨fun single => noWild _ single (.inl rfl), fun multi => noWild _ multi (.inr rfl)⟩

theorem parsed_valid {filter : Str} {chunks : List Chunk} (parsed : parse filter = some chunks) :
    (⟨canonical chunks, chunks⟩ : ZenohFilter).Valid := by
  have paired := parse_eq_some_iff.mp parsed
  refine ⟨rfl, ?_, parse_valid parsed, ?_⟩
  · rintro (rfl : chunks = [])
    exact List.splitOn_ne_nil _ _ (List.eq_nil_of_length_eq_zero paired.length_eq)
  · intro chunk isChunk
    obtain ⟨text, isText, ok⟩ := exists_left_of_forall₂ paired isChunk
    exact classify_cut (fun inside => (mem_of_mem_piece isText inside).2 rfl) ok

theorem ZenohFilter.Valid.isMatch_iff_matches {f : ZenohFilter} (valid : f.Valid) (key : Str)
    (spans : Spans) :
    (f.isMatch key spans).1 = true ↔
        '*' ∉ key ∧ chunkRules.Matches f.chunks (keyChunks key) := by
  by_cases star : '*' ∈ key
  · simp [ZenohFilter.isMatch, star]
  · rw [valid.isMatch_iff star, valid.matched_iff]
    exact (and_iff_right star).symm

/-- The filter that `parse` reads from a text. -/
def ZenohFilter.ofText (filter : Str) (chunks : List Chunk) : ZenohFilter := ⟨filter, chunks⟩

theorem isMatch_iff_of_parse {filter key : Str} {chunks : List Chunk}
    (parsed : parse filter = some chunks) (spans : Spans) :
    ((ZenohFilter.ofText filter chunks).isMatch key spans).1 = true ↔
      '*' ∉ key ∧ chunkRules.Matches chunks (keyChunks key) :=
  -- the matcher reads the chunks only
  (parsed_valid parsed).isMatch_iff_matches key spans

/-- The filter of a route reads back to chunks that match the route's keys, is in
canonical order, and spells itself. -/
structure ZenohFilter.StandsFor (f : ZenohFilter) : Prop where
  reads : ∃ chunks, parse f.filter = some chunks ∧ canonical chunks = f.filter ∧
    ∀ key spans, ((ofText f.filter chunks).isMatch key spans).1 = (f.isMatch key spans).1
  settled : (f.filter.splitOn '/').IsChain Settled

theorem ZenohFilter.Valid.standsFor {f : ZenohFilter} (valid : f.Valid) : f.StandsFor where
  reads := by
    refine ⟨normal f.chunks 0 false, valid.parse_filter, ?_, fun key spans => ?_⟩
    · rw [canonical_normal, valid.filter]
    · have same := same_normal f.chunks 0 false (keyChunks key)
      rw [Bool.eq_iff_iff, isMatch_iff_of_parse valid.parse_filter, valid.isMatch_iff_matches]
      exact and_congr_right fun _ => same.symm
  settled := valid.settled

/-- Whatever the second filter matches, the first one matches. -/
def Above (a b : Str) : Prop :=
  ∃ above below, parse a = some above ∧ parse b = some below ∧ ∀ key spans,
    ((ZenohFilter.ofText b below).isMatch key spans).1 = true →
      ((ZenohFilter.ofText a above).isMatch key spans).1 = true

theorem above_of_covers {a b : Str} (covered : covers a b = true) : Above a b := by
  obtain ⟨above, below, parsedA, parsedB, includes⟩ := covers_cases covered
  refine ⟨above, below, parsedA, parsedB, fun key spans matched => ?_⟩
  obtain ⟨noStar, fits⟩ := (isMatch_iff_of_parse parsedB spans).mp matched
  exact (isMatch_iff_of_parse parsedA spans).mpr
    ⟨noStar, includes.comp inclusion_composes_chunkRules fits⟩

/-- A route whose filter covers another route's filter matches its keys. -/
theorem ZenohFilter.Valid.isMatch_of_covers {f g : ZenohFilter} (validF : f.Valid)
    (validG : g.Valid) (covered : covers f.filter g.filter = true) {key : Str} {spans : Spans}
    (matched : (g.isMatch key spans).1 = true) : (f.isMatch key spans).1 = true := by
  obtain ⟨noStar, fits⟩ := (validG.isMatch_iff_matches key spans).mp matched
  apply (validF.isMatch_iff_matches key spans).mpr ⟨noStar, _⟩
  rw [← validF.matched_iff]
  exact matched_of_covers covered ((validG.matched_iff key).mpr fits)

structure Subscribes : Prop where
  standsFor : ∀ pattern f, compileFilter pattern = .ok f → f.StandsFor
  covers : ∀ a b, covers a b = true → Above a b
  routes : ∀ first second f g, compileFilter first = .ok f → compileFilter second = .ok g →
    Zenoh.covers f.filter g.filter = true → ∀ key spans,
      (g.isMatch key spans).1 = true → (f.isMatch key spans).1 = true

theorem subscribes : Subscribes where
  standsFor _ _ compiled := (compileFilter_valid compiled).standsFor
  covers _ _ covered := above_of_covers covered
  routes _ _ _ _ compiledF compiledG covered _ _ matched :=
    (compileFilter_valid compiledF).isMatch_of_covers
      (compileFilter_valid compiledG) covered matched

/-- `{rest..}/{last}` subscribes `*/**`. -/
example : (compileFilter ⟨"{rest..}/{last}".toList,
    [.capture "rest".toList true, .text ['/'], .capture "last".toList false]⟩).map
      ZenohFilter.filter = .ok "*/**".toList := by
  decide

end AimDb.Zenoh
