import AimDb.Session.TopicMatch.Language
import AimDb.Topic.Text

/-!
# Record patterns of a store

A store narrows a query with the pattern's leading literal and leaves the
deciding to `topic_matches`.  The literal keeps the `.` in front of the wildcard,
which a key that `#` matches with no segment does not have.
-/

namespace AimDb.Persistence

open Session.TopicMatch Topic

/-- `str::as_bytes`. -/
def asBytes (s : String) : List UInt8 := s.toList.flatMap String.utf8EncodeChar

/-- BINARY collation: bytes in order, a proper start first. -/
def BytesBelow (a b : List UInt8) : Prop := List.Lex (· < ·) a b

instance (a b : List UInt8) : Decidable (BytesBelow a b) :=
  inferInstanceAs (Decidable (List.Lex (· < ·) a b))

/-- `&s[..stop]`, to a byte position. -/
def takeBytes : Str → Nat → Str
  | _, 0 => []
  | [], _ => []
  | c :: s, n => c :: takeBytes s (n - c.utf8Size)

theorem takeBytes_append (front rest : Str) :
    takeBytes (front ++ rest) (byteLen front) = front := by
  induction front with
  | nil => cases rest <;> rfl
  | cons c front inductionHypothesis =>
      have wide := Char.utf8Size_pos c
      rw [List.cons_append, byteLen_cons, takeBytes]
      · rw [Nat.add_sub_cancel_left, inductionHypothesis]
      · omega

theorem not_bytesBelow_append (front rest : List UInt8) : ¬ BytesBelow (front ++ rest) front := by
  induction front with
  | nil => exact List.not_lex_nil
  | cons byte front inductionHypothesis =>
      rw [BytesBelow, List.cons_append, List.cons_lex_cons_iff]
      rintro (smaller | ⟨-, tail⟩)
      · exact UInt8.lt_irrefl byte smaller
      · exact inductionHypothesis tail

theorem bytesBelow_append_left (front : List UInt8) {a b : List UInt8} (below : BytesBelow a b) :
    BytesBelow (front ++ a) (front ++ b) := by
  induction front with
  | nil => exact below
  | cons byte front inductionHypothesis => exact List.Lex.cons inductionHypothesis

theorem bytesBelow_append_cons (front : List UInt8) (byte : UInt8) (rest : List UInt8) :
    BytesBelow front (front ++ byte :: rest) := by
  have below := @bytesBelow_append_left front [] (byte :: rest) .nil
  rwa [List.append_nil] at below

def isWildSegment (segment : String) : Bool := segment == "*" || segment == "#"

/-- The pattern's leading literal, everything before its first wildcard segment. -/
def literalPrefix (pattern : String) : String :=
  match (segments pattern).findIdx? isWildSegment with
  | some 0 => ""
  | some n =>
      let stop := (((segments pattern).take n).map fun segment => byteLen segment.toList + 1).sum
      String.ofList (takeBytes pattern.toList stop)
  | none => pattern

/-- The loop of `prefix_upper_bound`, over the bytes from the last one on. -/
def successor : List UInt8 → Option (List UInt8)
  | [] => none
  | last :: front => if last < 255 then some (front.reverse ++ [last + 1]) else successor front

/-- Exclusive upper bound for a bytewise scan of everything behind `text`. -/
def prefixUpperBound (text : String) : Option (List UInt8) :=
  successor (asBytes text).reverse

/-- Half-open range of the record names a query reads. -/
def scanRange (pattern : String) : Option String × Option (List UInt8) :=
  let text := literalPrefix pattern
  if text.isEmpty then (none, none) else (some text, prefixUpperBound text)

def scanned (pattern name : String) : Bool :=
  ((scanRange pattern).1.all fun start => !decide (BytesBelow (asBytes name) (asBytes start))) &&
    (scanRange pattern).2.all fun stop => decide (BytesBelow (asBytes name) stop)

theorem successor_above {bytes bound : List UInt8} (found : successor bytes = some bound)
    (rest : List UInt8) : BytesBelow (bytes.reverse ++ rest) bound := by
  induction bytes generalizing rest with
  | nil => cases found
  | cons last front inductionHypothesis =>
      rw [List.reverse_cons, List.append_assoc]
      rw [successor] at found
      split at found
      · rename_i room
        obtain rfl := Option.some.inj found
        apply bytesBelow_append_left
        apply List.Lex.rel
        rw [UInt8.lt_iff_toNat_lt] at room ⊢
        rw [UInt8.toNat_add]
        change last.toNat < 255 at room
        change last.toNat < (last.toNat + 1) % 256
        omega
      · exact inductionHypothesis found _

theorem asBytes_append {s t : String} {rest : Str} (whole : s.toList = t.toList ++ rest) :
    asBytes s = asBytes t ++ rest.flatMap String.utf8EncodeChar := by
  rw [asBytes, whole, List.flatMap_append]
  rfl

theorem scanned_of_starts {pattern name : String} {rest : Str}
    (starts : name.toList = (literalPrefix pattern).toList ++ rest) :
    scanned pattern name = true := by
  rw [scanned, scanRange]
  split
  · rfl
  · have bytes := asBytes_append starts
    simp only [Option.all_some, Bool.and_eq_true, Bool.not_eq_true', decide_eq_false_iff_not, bytes]
    refine ⟨not_bytesBelow_append _ _, ?_⟩
    rw [Option.all_eq_true]
    intro bound found
    have above := successor_above found (rest.flatMap String.utf8EncodeChar)
    rw [List.reverse_reverse] at above
    exact decide_eq_true above

theorem not_scanned_of_short {pattern name : String} {c : Char} {rest : Str}
    (longer : (literalPrefix pattern).toList = name.toList ++ c :: rest) :
    scanned pattern name = false := by
  have some : (literalPrefix pattern).isEmpty = false := by
    rw [Bool.eq_false_iff]
    intro empty
    rw [String.isEmpty_iff.mp empty] at longer
    simp at longer
  have bytes := asBytes_append longer
  rw [List.flatMap_cons] at bytes
  have below : BytesBelow (asBytes name) (asBytes (literalPrefix pattern)) := by
    cases first : String.utf8EncodeChar c with
    | nil =>
        have long := String.length_utf8EncodeChar c
        rw [first] at long
        exact absurd long.symm (Char.utf8Size_pos c).ne'
    | cons byte more =>
        rw [bytes, first]
        exact bytesBelow_append_cons _ _ _
  simp [scanned, scanRange, some, below]

/-- The segments in front of the first wildcard. -/
def head (pattern : String) : List String :=
  (segments pattern).takeWhile fun segment => !isWildSegment segment

def tail (pattern : String) : List String :=
  (segments pattern).dropWhile fun segment => !isWildSegment segment

/-- The name is the literal of a pattern that goes on with `#` segments only. -/
def overlooks (pattern name : String) : Bool :=
  !(head pattern).isEmpty && !(tail pattern).isEmpty && (tail pattern).all (· == "#") &&
    segments name == head pattern

theorem head_append_tail (pattern : String) : head pattern ++ tail pattern = segments pattern :=
  List.takeWhile_append_dropWhile

theorem head_plain {pattern segment : String} (inHead : segment ∈ head pattern) :
    segment ≠ "*" ∧ segment ≠ "#" := by
  have plain := List.mem_takeWhile_imp inHead
  simpa [isWildSegment] using plain

theorem findIdx?_eq {α : Type} (p : α → Bool) (xs : List α) :
    xs.findIdx? p =
      if xs.dropWhile (fun x => !p x) = [] then none
      else some (xs.takeWhile fun x => !p x).length := by
  induction xs with
  | nil => rfl
  | cons x xs inductionHypothesis =>
      rw [List.findIdx?_cons, List.dropWhile_cons, List.takeWhile_cons]
      cases here : p x with
      | true => rfl
      | false =>
          simp only [inductionHypothesis, Bool.not_false, if_true]
          by_cases rest : xs.dropWhile (fun x => !p x) = []
          · rw [if_pos rest, if_pos rest]
            rfl
          · rw [if_neg rest, if_neg rest]
            rfl

theorem findIdx?_wild (pattern : String) :
    (segments pattern).findIdx? isWildSegment =
      if tail pattern = [] then none else some (head pattern).length :=
  findIdx?_eq _ _

theorem join_segments (s : String) : join ['.'] ((segments s).map String.toList) = s.toList := by
  rw [segments, List.map_map]
  have back : (fun l => (String.ofList l).toList) = id := by
    funext l
    exact String.toList_ofList
  change join ['.'] ((s.toList.splitOn '.').map fun l => (String.ofList l).toList) = _
  rw [back, List.map_id]
  exact List.intercalate_splitOn '.'

/-- Behind the literal segments and their separators stands the first wildcard. -/
theorem literalPrefix_eq {pattern : String} (some : head pattern ≠ [])
    (wild : tail pattern ≠ []) :
    (literalPrefix pattern).toList = lead '.' ((head pattern).map String.toList) := by
  have position : (segments pattern).findIdx? isWildSegment = .some (head pattern).length := by
    rw [findIdx?_wild, if_neg wild]
  have first : (segments pattern).take (head pattern).length = head pattern := by
    rw [← head_append_tail, List.take_left]
  have text : pattern.toList =
      lead '.' ((head pattern).map String.toList) ++
          join ['.'] ((tail pattern).map String.toList) := by
    rw [← join_segments, ← head_append_tail, List.map_append, join_append]
    simpa using wild
  have size : ∀ pieces : List String,
      (pieces.map fun segment => byteLen segment.toList + 1).sum =
        byteLen (lead '.' (pieces.map String.toList)) := by
    intro pieces
    induction pieces with
    | nil => rfl
    | cons piece pieces inductionHypothesis =>
        have split : lead '.' ((piece :: pieces).map String.toList) =
            (piece.toList ++ ['.']) ++ lead '.' (pieces.map String.toList) := rfl
        rw [List.map_cons, List.sum_cons, inductionHypothesis, split, byteLen_append,
          byteLen_append]
        rfl
  obtain ⟨n, length⟩ : ∃ n, (head pattern).length = n + 1 :=
    ⟨_, (Nat.succ_pred_eq_of_pos (List.length_pos_iff.mpr some)).symm⟩
  rw [length] at position first
  rw [literalPrefix, position]
  simp only [first, size]
  rw [String.toList_ofList, text, takeBytes_append]

theorem literalPrefix_plain {pattern : String} (plain : tail pattern = []) :
    literalPrefix pattern = pattern := by
  rw [literalPrefix, findIdx?_wild, if_pos plain]

theorem literalPrefix_wild {pattern : String} (none : head pattern = [])
    (wild : tail pattern ≠ []) : literalPrefix pattern = "" := by
  rw [literalPrefix, findIdx?_wild, if_neg wild, none]
  rfl

theorem aligns_plain_iff {stem ps ss : List String}
    (plain : ∀ s ∈ stem, s ≠ "*" ∧ s ≠ "#") :
    topicGrammar.Aligns (stem ++ ps) ss ↔
      ∃ more, ss = stem ++ more ∧ topicGrammar.Aligns ps more := by
  induction stem generalizing ss with
  | nil => simp
  | cons s stem inductionHypothesis =>
      obtain ⟨notStar, notHash⟩ := plain s (by simp)
      have later : ∀ rest, topicGrammar.Aligns (stem ++ ps) rest ↔ _ :=
        fun rest => inductionHypothesis fun t inStem => plain t (by simp [inStem])
      rw [List.cons_append, Wildcard.Grammar.aligns_cover_iff (by simpa using notHash)]
      simp only [walkGrammar_covers, segmentMatches, Bool.or_eq_true, beq_iff_eq, notStar, false_or,
        later]
      constructor
      · rintro ⟨_, _, rfl, rfl, more, rfl, aligned⟩
        exact ⟨more, rfl, aligned⟩
      · rintro ⟨more, rfl, aligned⟩
        exact ⟨s, stem ++ more, rfl, rfl, more, rfl, aligned⟩

theorem aligns_nothing_iff {ps : List String} :
    topicGrammar.Aligns ps [] ↔ ∀ p ∈ ps, p = "#" := by
  rw [Wildcard.Grammar.aligns_empty_iff]
  simp

theorem topicMatches_iff {pattern name : String} :
    topicMatches pattern name = true ↔
      ∃ more, segments name = head pattern ++ more ∧
      topicGrammar.Aligns (tail pattern) more := by
  rw [topicMatches_eq_true_iff, mem_matchSet, ← head_append_tail pattern]
  exact aligns_plain_iff fun _ => head_plain

theorem overlooks_iff {pattern name : String} :
    overlooks pattern name = true ↔ head pattern ≠ [] ∧ tail pattern ≠ [] ∧
      (∀ segment ∈ tail pattern, segment = "#") ∧ segments name = head pattern := by
  simp [overlooks, and_assoc]

theorem topicMatches_of_overlooks {pattern name : String} (left : overlooks pattern name = true) :
    topicMatches pattern name = true := by
  obtain ⟨-, -, hashes, whole⟩ := overlooks_iff.mp left
  exact topicMatches_iff.mpr ⟨[], by simp [whole], aligns_nothing_iff.mpr hashes⟩

theorem scanned_iff {pattern name : String} (matched : topicMatches pattern name = true) :
    scanned pattern name = true ↔ overlooks pattern name = false := by
  obtain ⟨more, whole, aligned⟩ := topicMatches_iff.mp matched
  have text : name.toList = join ['.'] ((head pattern ++ more).map String.toList) := by
    rw [← whole, join_segments]
  rw [Bool.eq_false_iff, ne_eq, overlooks_iff]
  by_cases plain : tail pattern = []
  · -- without wildcards the pattern is the name
    rw [plain, Wildcard.Grammar.aligns_nil_iff] at aligned
    subst aligned
    have same : name = pattern := by
      apply segments_injective
      rw [whole, ← head_append_tail pattern, plain]
    refine iff_of_true (@scanned_of_starts _ _ [] ?_) fun left => left.2.1 plain
    rw [literalPrefix_plain plain, same, List.append_nil]
  by_cases none : head pattern = []
  · refine iff_of_true (@scanned_of_starts _ _ name.toList ?_) fun left => left.1 none
    rw [literalPrefix_wild none plain]
    rfl
  have literal := literalPrefix_eq none plain
  cases more with
  | nil =>
      rw [List.append_nil] at text whole
      have short : (literalPrefix pattern).toList = name.toList ++ '.' :: [] := by
        rw [literal, lead_eq_join (by simpa using none), text]
      rw [not_scanned_of_short short]
      exact iff_of_false Bool.false_ne_true
        (not_not_intro ⟨none, plain, aligns_nothing_iff.mp aligned, whole⟩)
  | cons segment more =>
      have starts : name.toList = (literalPrefix pattern).toList ++
          join ['.'] ((segment :: more).map String.toList) := by
        rw [literal, text, List.map_append, join_append _ (by simp)]
      refine iff_of_true (scanned_of_starts starts) fun left => ?_
      rw [whole] at left
      simpa using congrArg List.length left.2.2.2

end AimDb.Persistence
