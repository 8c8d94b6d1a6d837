import AimDb.Topic.Pattern

/-!
# The text of a pattern

Braces only ever delimit captures, so no text of a parsed pattern holds one, and
a topic without braces is a single text.
-/

namespace AimDb.Topic

section Pieces

variable {x : Char}

def lead (x : Char) (pieces : List Str) : Str := (pieces.map fun piece => piece ++ [x]).flatten

@[simp]
theorem lead_nil : lead x [] = [] := rfl

theorem lead_append (front more : List Str) :
    lead x (front ++ more) = lead x front ++ lead x more := by
  simp [lead]

theorem lead_singleton (piece : Str) : lead x [piece] = piece ++ [x] := by simp [lead]

@[simp]
theorem join_nil (separator : Str) : join separator [] = [] := rfl

theorem join_append (front : List Str) {more : List Str} (some : more ≠ []) :
    join [x] (front ++ more) = lead x front ++ join [x] more := by
  induction front with
  | nil => rfl
  | cons piece front inductionHypothesis =>
      have split : piece :: front = [piece] ++ front := rfl
      cases rest : front ++ more with
      | nil => exact absurd (List.append_eq_nil_iff.mp rest).2 some
      | cons next others =>
          rw [List.cons_append, rest, join, List.intercalate_cons_cons, ← rest, split,
            lead_append, lead_singleton, List.append_assoc]
          rw [join] at inductionHypothesis
          rw [inductionHypothesis, List.append_assoc, List.append_assoc]

theorem join_append_singleton (front : List Str) (piece : Str) :
    join [x] (front ++ [piece]) = lead x front ++ piece := by
  rw [join_append front (by simp)]
  simp [join]

theorem lead_eq_join {pieces : List Str} (some : pieces ≠ []) :
    lead x pieces = join [x] pieces ++ [x] := by
  obtain ⟨front, last, rfl⟩ := (List.eq_nil_or_concat' pieces).resolve_left some
  rw [join_append_singleton, lead_append, lead_singleton, List.append_assoc]

/-- Whatever follows, the text of some pieces comes first. -/
theorem exists_join_append {run : List Str} (some : run ≠ []) (more : List Str) :
    ∃ after, join [x] (run ++ more) = join [x] run ++ after := by
  cases more with
  | nil => exact ⟨[], by simp⟩
  | cons next more =>
      refine ⟨x :: join [x] (next :: more), ?_⟩
      rw [join_append _ (by simp), lead_eq_join some, List.append_assoc]
      rfl

end Pieces

namespace TopicPattern

def Braceless (parts : List PatternPart) : Prop :=
  ∀ text, .text text ∈ parts → ∀ c ∈ text, isBrace c = false

theorem Braceless.append {parts more : List PatternPart} (first : Braceless parts)
    (second : Braceless more) : Braceless (parts ++ more) := by
  intro text isPart
  rcases List.mem_append.mp isPart with earlier | later
  · exact first text earlier
  · exact second text later

theorem braceless_textPart {text : Str} (plain : ∀ c ∈ text, isBrace c = false) :
    Braceless (textPart text) := by
  intro other isPart
  rw [textPart] at isPart
  split at isPart
  · cases isPart
  · obtain rfl : other = text := by simpa using isPart
    exact plain

theorem braceless_capture (name : Str) (multi : Bool) : Braceless [.capture name multi] := by
  intro text isPart
  simp at isPart

theorem findBrace_plain (rest : Str) : ∀ c ∈ (findBrace rest).1, isBrace c = false := by
  intro c inside
  simpa using List.mem_takeWhile_imp inside

theorem ne_of_checkName {topic name : Str} {parts : List PatternPart} {captures : Nat} {u : Unit}
    (ok : checkName topic name parts captures = .ok u) : captures ≠ maxCaptures := by
  rintro rfl
  rw [checkName] at ok
  split at ok
  · cases ok
  split at ok
  · cases ok
  split at ok
  · cases ok
  · cases ok

section Turns

variable {topic rest text : Str} {parts parsed : List PatternPart} {captures : Nat}

theorem findBrace_append (plain : ∀ c ∈ text, isBrace c = false) {brace : Char}
    (isABrace : isBrace brace = true) :
    findBrace (text ++ brace :: rest) = (text, brace :: rest) := by
  have all : ∀ c ∈ text, (!isBrace c) = true := by
    intro c mem
    rw [plain c mem]
    rfl
  rw [findBrace, List.takeWhile_append_of_pos all, List.dropWhile_append_of_pos all,
    List.takeWhile_cons_of_neg (by simpa using isABrace),
    List.dropWhile_cons_of_neg (by simpa using isABrace), List.append_nil]

theorem findBrace_cons {brace : Char} {after : Str}
    (found : findBrace rest = (text, brace :: after)) :
    rest = text ++ brace :: after ∧ (∀ c ∈ text, isBrace c = false) ∧
        isBrace brace = true := by
  obtain ⟨isText, isRest⟩ := Prod.mk.inj found
  have plain := findBrace_plain rest
  rw [found] at plain
  refine ⟨?_, plain, ?_⟩
  · rw [← isText, ← isRest]
    exact (List.takeWhile_append_dropWhile).symm
  · have nonempty : rest.dropWhile (fun c => !isBrace c) ≠ [] := by
      rw [isRest]
      exact List.cons_ne_nil _ _
    have stopped := List.head_dropWhile_not (fun c => !isBrace c) nonempty
    simpa [isRest] using stopped

theorem parseFrom_plain (plain : ∀ c ∈ rest, isBrace c = false) :
    parseFrom topic rest parts captures = .ok (parts ++ textPart rest) := by
  have found : findBrace rest = (rest, []) := by
    rw [findBrace, Prod.mk.injEq, List.takeWhile_eq_self_iff, List.dropWhile_eq_nil_iff]
    simp only [Bool.not_eq_true']
    exact ⟨plain, plain⟩
  unfold parseFrom
  split
  · rfl
  next brace after other =>
    obtain ⟨-, impossible⟩ := Prod.mk.inj (found.symm.trans other)
    cases impossible

theorem parseFrom_turn (ok : parseFrom topic rest parts captures = .ok parsed) :
    ((∀ c ∈ rest, isBrace c = false) ∧ parsed = parts ++ textPart rest) ∨
      ∃ text body next, rest = text ++ '{' :: (body ++ '}' :: next) ∧
        (∀ c ∈ text, isBrace c = false) ∧
        checkName topic (stripDots body).1 parts captures = .ok () ∧
        parseFrom topic next
          (parts ++ textPart text ++ [.capture (stripDots body).1 (stripDots body).2])
          (captures + 1) = .ok parsed := by
  unfold parseFrom at ok
  split at ok
  next text found =>
    refine .inl ⟨?_, (Except.ok.inj ok).symm⟩
    have none : rest.dropWhile (fun c => !isBrace c) = [] := congrArg Prod.snd found
    simpa [List.dropWhile_eq_nil_iff] using none
  next text brace after found =>
    obtain ⟨rfl, plain, isABrace⟩ := findBrace_cons found
    split at ok
    · cases ok
    next isOpen =>
      obtain rfl : brace = '{' := by
        rcases Bool.or_eq_true_iff.mp isABrace with isOpened | isClosed
        · exact beq_iff_eq.mp isOpened
        · exact absurd isClosed isOpen
      split at ok
      next body next closed =>
        obtain ⟨rfl, -, -⟩ := findBrace_cons closed
        obtain ⟨checked, isChecked, ok⟩ := bind_eq_ok ok
        exact .inr ⟨text, body, next, rfl, plain, isChecked, ok⟩
      · cases ok

/-- What one turn of the loop does when it goes on or ends well. -/
theorem parseFrom_cases (ok : parseFrom topic rest parts captures = .ok parsed) :
    ((∀ c ∈ rest, isBrace c = false) ∧ parsed = parts ++ textPart rest) ∨
      ∃ name multi next, next.length < rest.length ∧ captures ≠ maxCaptures ∧
        parseFrom topic next
          (parts ++ textPart (findBrace rest).1 ++ [.capture name multi]) (captures + 1) =
            .ok parsed := by
  rcases parseFrom_turn ok with ending | ⟨text, body, next, rfl, plain, checked, ok⟩
  · exact .inl ending
  · have opened : findBrace (text ++ '{' :: (body ++ '}' :: next)) =
        (text, '{' :: (body ++ '}' :: next)) := findBrace_append plain (by decide)
    refine .inr ⟨(stripDots body).1, (stripDots body).2, next, ?_, ne_of_checkName checked, ?_⟩
    · simp
      omega
    · rw [opened]
      exact ok

end Turns

theorem parseFrom_braceless {topic rest : Str} {parts parsed : List PatternPart} {captures : Nat}
    (braceless : Braceless parts) (ok : parseFrom topic rest parts captures = .ok parsed) :
    Braceless parsed := by
  induction size : rest.length using Nat.strong_induction_on generalizing rest parts captures with
  | _ n inductionHypothesis =>
      rcases parseFrom_cases ok with ⟨plain, rfl⟩ | ⟨name, multi, next, shorter, -, ok⟩
      · exact braceless.append (braceless_textPart plain)
      · have here : Braceless (parts ++ textPart (findBrace rest).1) :=
          braceless.append (braceless_textPart (findBrace_plain rest))
        exact inductionHypothesis next.length (size ▸ shorter)
          (here.append (braceless_capture name multi)) ok rfl

theorem parse_braceless {topic : Str} {pattern : TopicPattern} (ok : parse topic = .ok pattern) :
    Braceless pattern.parts := by
  obtain ⟨parts, parsed, rfl⟩ := map_eq_ok ok
  exact parseFrom_braceless (by simp [Braceless]) parsed

def captureName : PatternPart → Option Str
  | .capture name _ => some name
  | .text _ => none

theorem captureNames_eq (pattern : TopicPattern) :
    pattern.captureNames = pattern.parts.filterMap captureName := by
  rw [captureNames]
  congr 1

theorem filterMap_textPart (text : Str) : (textPart text).filterMap captureName = [] := by
  rw [textPart]
  split <;> rfl

theorem parseFrom_captures {topic rest : Str} {parts parsed : List PatternPart} {captures : Nat}
    (count : (parts.filterMap captureName).length = captures) (bound : captures ≤ maxCaptures)
    (ok : parseFrom topic rest parts captures = .ok parsed) :
    (parsed.filterMap captureName).length ≤ maxCaptures := by
  induction size : rest.length using Nat.strong_induction_on generalizing rest parts captures with
  | _ n inductionHypothesis =>
      rcases parseFrom_cases ok with ⟨-, rfl⟩ | ⟨name, multi, next, shorter, room, ok⟩
      · simpa [filterMap_textPart, count] using bound
      · apply inductionHypothesis next.length (size ▸ shorter) _ _ ok rfl
        · simp [filterMap_textPart, captureName, count]
        · omega

theorem captureNames_length_le {topic : Str} {pattern : TopicPattern}
    (ok : parse topic = .ok pattern) : pattern.captureNames.length ≤ maxCaptures := by
  obtain ⟨parts, parsed, rfl⟩ := map_eq_ok ok
  rw [captureNames_eq]
  exact parseFrom_captures rfl (Nat.zero_le _) parsed

theorem parse_of_plain {topic : Str} (plain : ∀ c ∈ topic, isBrace c = false) :
    parse topic = .ok ⟨topic, textPart topic⟩ := by
  rw [parse, parseFrom_plain plain]
  rfl

end TopicPattern

namespace RawSegments

theorem all_pushSegments (raw : RawSegments) (segments : List Str) :
    RawSegments.all (segments.foldl pushSegment raw) =
      raw.all ++ segments.map fun text => { text := text } := by
  induction segments generalizing raw with
  | nil => simp
  | cons segment segments inductionHypothesis =>
      rw [List.foldl_cons, inductionHypothesis]
      simp [pushSegment, all]

theorem ofParts_text (whole : String) (text : Str) :
    ofParts whole (TopicPattern.textPart text) =
      .ok ((text.splitOn '/').map fun piece => { text := piece }) := by
  cases text with
  | nil => rfl
  | cons c text =>
      have one : TopicPattern.textPart (c :: text) = [.text (c :: text)] := rfl
      rw [one, ofParts, List.foldlM_cons]
      cases split : (c :: text).splitOn '/' with
      | nil => exact absurd split (List.splitOn_ne_nil _ _)
      | cons segment more =>
          have pushed : pushPart whole {} (.text (c :: text)) = .ok
              (more.foldl pushSegment { last := { text := segment } }) := by
            rw [pushPart, pushText, split]
            rfl
          rw [pushed]
          change Except.ok (RawSegments.all _) = _
          rw [all_pushSegments]
          rfl

def numbers (segments : List RawSegment) : List Nat :=
  segments.filterMap fun segment => segment.capture.map Prod.fst

theorem numbers_append (segments more : List RawSegment) :
    numbers (segments ++ more) = numbers segments ++ numbers more :=
  List.filterMap_append

theorem numbers_texts (texts : List Str) :
    numbers (texts.map fun text => { text := text }) = [] := by
  simp [numbers, List.filterMap_map]

def Numbered (raw : RawSegments) : Prop := numbers raw.all = List.range raw.captures

theorem captures_pushSegments (segments : List Str) (raw : RawSegments) :
    RawSegments.captures (segments.foldl pushSegment raw) = raw.captures := by
  induction segments generalizing raw with
  | nil => rfl
  | cons segment segments inductionHypothesis => exact inductionHypothesis (raw.pushSegment segment)

theorem Numbered.pushText {raw : RawSegments} (numbered : raw.Numbered) (text : Str) :
    (raw.pushText text).Numbered ∧ (raw.pushText text).captures = raw.captures := by
  rw [RawSegments.pushText]
  cases text.splitOn '/' with
  | nil => exact ⟨numbered, rfl⟩
  | cons segment more =>
      refine ⟨?_, captures_pushSegments more _⟩
      rw [Numbered, all_pushSegments, numbers_append, numbers_texts, captures_pushSegments,
        List.append_nil]
      rw [Numbered, all, numbers_append] at numbered
      rw [all, numbers_append]
      exact numbered

theorem Numbered.pushPart {whole : String} {raw next : RawSegments} (numbered : raw.Numbered)
    {part : PatternPart} (pushed : raw.pushPart whole part = .ok next) :
    next.Numbered ∧
      next.captures = raw.captures + ([part].filterMap TopicPattern.captureName).length := by
  cases part with
  | text text =>
      obtain rfl : raw.pushText text = next := by simpa [RawSegments.pushPart] using pushed
      exact numbered.pushText text
  | capture name multi =>
      rw [RawSegments.pushPart] at pushed
      split at pushed
      · cases pushed
      · rename_i free
        have last : raw.last.capture = none := by simpa using free
        obtain rfl := Except.ok.inj pushed
        refine ⟨?_, rfl⟩
        rw [Numbered, all, numbers_append] at numbered ⊢
        have before : numbers raw.done = List.range raw.captures := by
          simpa [numbers, last] using numbered
        rw [before, List.range_succ]
        rfl

theorem foldlM_numbered {whole : String} {parts : List PatternPart} {start stop : RawSegments}
    (numbered : start.Numbered) (folded : parts.foldlM (pushPart whole) start = .ok stop) :
    stop.Numbered ∧
      stop.captures = start.captures + (parts.filterMap TopicPattern.captureName).length := by
  induction parts generalizing start with
  | nil =>
      obtain rfl : start = stop := by simpa [pure, Except.pure] using folded
      exact ⟨numbered, rfl⟩
  | cons part parts inductionHypothesis =>
      rw [List.foldlM_cons] at folded
      obtain ⟨next, pushed, rest⟩ := bind_eq_ok folded
      obtain ⟨numberedNext, counted⟩ := numbered.pushPart pushed
      obtain ⟨numberedStop, total⟩ := inductionHypothesis numberedNext rest
      have split := congrArg List.length
        (@List.filterMap_append _ _ [part] parts TopicPattern.captureName)
      rw [List.singleton_append, List.length_append] at split
      refine ⟨numberedStop, ?_⟩
      rw [total, counted, split, Nat.add_assoc]

theorem ofParts_numbers {whole : String} {pattern : TopicPattern} {raw : List RawSegment}
    (built : ofParts whole pattern.parts = .ok raw) :
    numbers raw = List.range pattern.captureNames.length := by
  obtain ⟨stop, folded, rfl⟩ := map_eq_ok built
  obtain ⟨numbered, total⟩ := foldlM_numbered (show Numbered {} from rfl) folded
  rw [TopicPattern.captureNames_eq, numbered, total]
  simp

end RawSegments

end AimDb.Topic
