import AimDb.Topic.Syntax

/-!
# Slices of a topic

`parse` cuts its topic at byte offsets, and a slice at an offset inside of a character panics.
Every offset comes from `find`, so none does.
-/

namespace AimDb.Topic

/-- `str::find`, the offset of the first character that satisfies `p`. -/
def find (p : Char → Bool) : Str → Option ℕ
  | [] => none
  | c :: s => if p c then some 0 else (find p s).map (c.utf8Size + ·)

/-- `&s[i..]`, which panics off a character boundary. -/
def sliceFrom : Str → ℕ → Option Str
  | s, 0 => some s
  | [], _ + 1 => none
  | c :: s, i + 1 => if c.utf8Size ≤ i + 1 then sliceFrom s (i + 1 - c.utf8Size) else none

/-- `&s[..i]`, which panics off a character boundary. -/
def sliceTo : Str → ℕ → Option Str
  | _, 0 => some []
  | [], _ + 1 => none
  | c :: s, i + 1 =>
      if c.utf8Size ≤ i + 1 then (sliceTo s (i + 1 - c.utf8Size)).map (c :: ·) else none

variable {p : Char → Bool} {s t : Str} {i : ℕ}

theorem find_some (found : find p s = some i) : ∃ front c back, s = front ++ c :: back ∧
    byteLen front = i ∧ p c = true ∧ ∀ d ∈ front, p d = false := by
  induction s generalizing i with
  | nil => cases found
  | cons c s inductionHypothesis =>
      rw [find] at found
      split at found
      next satisfied =>
        cases found
        exact ⟨[], c, s, rfl, rfl, satisfied, fun _ mem => absurd mem List.not_mem_nil⟩
      next unsatisfied =>
        obtain ⟨offset, isOffset, rfl⟩ := Option.map_eq_some_iff.mp found
        obtain ⟨front, d, back, rfl, rfl, satisfied, rest⟩ := inductionHypothesis isOffset
        refine ⟨c :: front, d, back, rfl, byteLen_cons c front, satisfied, fun e mem => ?_⟩
        rcases List.mem_cons.mp mem with rfl | mem
        · simpa using unsatisfied
        · exact rest e mem

theorem sliceFrom_append (s t : Str) : sliceFrom (s ++ t) (byteLen s) = some t := by
  induction s with
  | nil => cases t <;> rfl
  | cons c s inductionHypothesis =>
      obtain ⟨width, isWidth⟩ := Nat.exists_eq_add_one.mpr c.utf8Size_pos
      have left : width + byteLen s + 1 - (width + 1) = byteLen s := by omega
      rw [byteLen_cons, isWidth, Nat.add_right_comm, List.cons_append, sliceFrom, isWidth,
        if_pos (by omega), left, inductionHypothesis]

theorem sliceTo_append (s t : Str) : sliceTo (s ++ t) (byteLen s) = some s := by
  induction s with
  | nil => cases t <;> rfl
  | cons c s inductionHypothesis =>
      obtain ⟨width, isWidth⟩ := Nat.exists_eq_add_one.mpr c.utf8Size_pos
      have left : width + byteLen s + 1 - (width + 1) = byteLen s := by omega
      rw [byteLen_cons, isWidth, Nat.add_right_comm, List.cons_append, sliceTo, isWidth,
        if_pos (by omega), left, inductionHypothesis]
      rfl

theorem sliceFrom_brace {brace : Char} (isBrace : TopicPattern.isBrace brace = true) (s t : Str) :
    sliceFrom (s ++ brace :: t) (byteLen s + 1) = some t := by
  have one : brace.utf8Size = 1 := by
    rcases Bool.or_eq_true_iff.mp isBrace with isOpen | isClose
    · rw [beq_iff_eq.mp isOpen]
      rfl
    · rw [beq_iff_eq.mp isClose]
      rfl
  have sliced := sliceFrom_append (s ++ [brace]) t
  rwa [byteLen_append, byteLen_cons, one, byteLen_nil, List.append_assoc] at sliced

namespace TopicPattern

/-- The end of the loop, or the rest and the parts that it goes on with. -/
inductive Turned
  | done (parts : List PatternPart)
  | next (rest : Str) (parts : List PatternPart)

/-- The offset of a `}` that no `{` comes before. -/
def closing (after : Str) : Option (Option ℕ) :=
  match find isBrace after with
  | some i => (sliceFrom after i).map fun here => if startsWith '}' here then some i else none
  | none => some none

def textBefore (rest : Str) (opened : ℕ) : Option (List PatternPart) :=
  if opened > 0 then (sliceTo rest opened).map fun text => [.text text] else some []

def turn (topic rest : Str) (parts : List PatternPart) (captures : ℕ) :
    Option (Except String Turned) :=
  match find isBrace rest with
  | none => some (.ok (.done (parts ++ textPart rest)))
  | some opened => do
      let here ← sliceFrom rest opened
      if startsWith '}' here then some (.error s!"unbalanced '\x7d' in '{String.ofList topic}'")
      else
        let after ← sliceFrom rest (opened + 1)
        match ← closing after with
        | none => some (.error s!"unbalanced '\x7b' in '{String.ofList topic}'")
        | some close =>
            let body ← sliceTo after close
            let (name, multi) := stripDots body
            match checkName topic name parts captures with
            | .error e => some (.error e)
            | .ok () =>
                let text ← textBefore rest opened
                let rest ← sliceFrom after (close + 1)
                some (.ok (.next rest (parts ++ text ++ [.capture name multi])))

variable {topic rest text body next : Str} {parts : List PatternPart} {captures : ℕ}

theorem find_of_plain (plain : ∀ c ∈ rest, isBrace c = false) : find isBrace rest = none := by
  cases found : find isBrace rest with
  | none => rfl
  | some i =>
      obtain ⟨front, c, back, rfl, -, isABrace, -⟩ := find_some found
      rw [plain c (by simp)] at isABrace
      cases isABrace

theorem turn_plain (plain : ∀ c ∈ rest, isBrace c = false) :
    turn topic rest parts captures = some (.ok (.done (parts ++ textPart rest))) := by
  rw [turn, find_of_plain plain]

theorem find_append {p : Char → Bool} {c : Char} (before : ∀ d ∈ text, p d = false)
    (satisfied : p c = true) : find p (text ++ c :: rest) = some (byteLen text) := by
  induction text with
  | nil => exact if_pos satisfied
  | cons d text inductionHypothesis =>
      rw [List.cons_append, find, before d List.mem_cons_self, if_neg (by decide),
        inductionHypothesis fun e mem => before e (List.mem_cons_of_mem _ mem), byteLen_cons]
      rfl

theorem turn_close (plain : ∀ c ∈ text, isBrace c = false) :
    turn topic (text ++ '}' :: rest) parts captures =
      some (.error s!"unbalanced '\x7d' in '{String.ofList topic}'") := by
  rw [turn, find_append plain (by decide)]
  dsimp only
  rw [sliceFrom_append]
  rfl

theorem startsWith_open (s : Str) : ¬ startsWith '}' ('{' :: s) = true := by
  rw [startsWith_cons]
  decide

theorem turn_unclosed (plain : ∀ c ∈ text, isBrace c = false)
    (unclosed : closing rest = some none) :
    turn topic (text ++ '{' :: rest) parts captures =
      some (.error s!"unbalanced '\x7b' in '{String.ofList topic}'") := by
  have isOpen : isBrace '{' = true := by decide
  rw [turn, find_append plain isOpen]
  simp only [sliceFrom_append, sliceFrom_brace isOpen, Option.bind_eq_bind, Option.bind_some,
    unclosed]
  rw [if_neg (startsWith_open rest)]

theorem textBefore_append (text rest : Str) :
    textBefore (text ++ rest) (byteLen text) = some (textPart text) := by
  cases text with
  | nil => rfl
  | cons c text =>
      rw [textBefore, if_pos, sliceTo_append]
      · rfl
      · rw [byteLen_cons]
        exact Nat.add_pos_left c.utf8Size_pos _

theorem closing_body (inside : ∀ c ∈ body, isBrace c = false) :
    closing (body ++ '}' :: next) = some (some (byteLen body)) := by
  rw [closing, find_append inside (by decide)]
  dsimp only
  rw [sliceFrom_append]
  rfl

theorem turn_capture (plain : ∀ c ∈ text, isBrace c = false)
    (inside : ∀ c ∈ body, isBrace c = false) :
    turn topic (text ++ '{' :: (body ++ '}' :: next)) parts captures =
      some ((checkName topic (stripDots body).1 parts captures).map fun _ =>
        .next next (parts ++ textPart text ++
          [.capture (stripDots body).1 (stripDots body).2])) := by
  have isOpen : isBrace '{' = true := by decide
  have isClose : isBrace '}' = true := by decide
  rw [turn, find_append plain isOpen]
  simp only [sliceFrom_append, sliceFrom_brace isOpen, Option.bind_eq_bind, Option.bind_some,
    closing_body inside, sliceTo_append, textBefore_append, sliceFrom_brace isClose]
  rw [if_neg (startsWith_open _)]
  cases checkName topic (stripDots body).1 parts captures with
  | error e => rfl
  | ok _ => rfl

theorem rest_cases (rest : Str) : (∀ c ∈ rest, isBrace c = false) ∨
    ∃ text brace after, rest = text ++ brace :: after ∧ (∀ c ∈ text, isBrace c = false) ∧
      (brace = '{' ∨ brace = '}') := by
  cases found : findBrace rest with
  | mk text back =>
      cases back with
      | nil =>
          have none : rest.dropWhile (fun c => !isBrace c) = [] := congrArg Prod.snd found
          exact .inl (by simpa [List.dropWhile_eq_nil_iff] using none)
      | cons brace after =>
          obtain ⟨same, plain, isABrace⟩ := findBrace_cons found
          refine .inr ⟨text, brace, after, same, plain, ?_⟩
          exact (Bool.or_eq_true_iff.mp isABrace).imp beq_iff_eq.mp beq_iff_eq.mp

theorem closing_of_plain (plain : ∀ c ∈ rest, isBrace c = false) :
    closing rest = some none := by
  have none : find isBrace rest = none := find_of_plain plain
  rw [closing, none]

theorem closing_open (inside : ∀ c ∈ body, isBrace c = false) :
    closing (body ++ '{' :: next) = some none := by
  rw [closing, find_append inside (by decide)]
  dsimp only
  rw [sliceFrom_append, Option.map_some, if_neg (startsWith_open next)]

theorem turn_shorter {after : Str} {more : List PatternPart}
    (turned : turn topic rest parts captures = some (.ok (.next after more))) :
    after.length < rest.length := by
  rcases rest_cases rest with plain | ⟨text, brace, back, rfl, plain, rfl | rfl⟩
  · rw [turn_plain plain] at turned
    cases turned
  · rcases rest_cases back with inside | ⟨body, brace, next, rfl, inside, rfl | rfl⟩
    · rw [turn_unclosed plain (closing_of_plain inside)] at turned
      cases turned
    · rw [turn_unclosed plain (closing_open inside)] at turned
      cases turned
    · rw [turn_capture plain inside] at turned
      obtain ⟨_, checked, same⟩ := map_eq_ok (Option.some.inj turned)
      cases same
      simp
      omega
  · rw [turn_close plain] at turned
    cases turned

/-- The loop of `parse` as it slices; no value where a slice panics. -/
def parseSliced (topic rest : Str) (parts : List PatternPart) (captures : ℕ) :
    Option (Except String (List PatternPart)) :=
  match _turned : turn topic rest parts captures with
  | none => none
  | some (.error e) => some (.error e)
  | some (.ok (.done parsed)) => some (.ok parsed)
  | some (.ok (.next after more)) => parseSliced topic after more (captures + 1)
termination_by rest.length
decreasing_by exact turn_shorter _turned

def follow (topic : Str) (captures : ℕ) :
    Except String Turned → Option (Except String (List PatternPart))
  | .error e => some (.error e)
  | .ok (.done parsed) => some (.ok parsed)
  | .ok (.next after more) => parseSliced topic after more (captures + 1)

theorem parseSliced_turn {outcome : Except String Turned}
    (turned : turn topic rest parts captures = some outcome) :
    parseSliced topic rest parts captures = follow topic captures outcome := by
  unfold parseSliced
  split
  next other => cases turned.symm.trans other
  next e other =>
    cases turned.symm.trans other
    rfl
  next parsed other =>
    cases turned.symm.trans other
    rfl
  next after more other =>
    cases turned.symm.trans other
    rfl

theorem parseSliced_eq (topic rest : Str) (parts : List PatternPart) (captures : ℕ) :
    parseSliced topic rest parts captures = some (parseFrom topic rest parts captures) := by
  induction size : rest.length using Nat.strong_induction_on generalizing rest parts captures with
  | _ n inductionHypothesis =>
      rcases rest_cases rest with plain | ⟨text, brace, back, rfl, plain, rfl | rfl⟩
      · rw [parseSliced_turn (turn_plain plain), parseFrom_plain plain]
        rfl
      · rcases rest_cases back with inside | ⟨body, brace, next, rfl, inside, rfl | rfl⟩
        · rw [parseSliced_turn (turn_unclosed plain (closing_of_plain inside)),
            parseFrom_unclosed plain]
          · rfl
          · intro body next same
            obtain ⟨rfl, -, -⟩ := findBrace_cons same
            exact absurd (inside '}' (by simp)) (by decide)
        · rw [parseSliced_turn (turn_unclosed plain (closing_open inside)),
            parseFrom_unclosed plain]
          · rfl
          · intro other tail same
            rw [findBrace_append inside (by decide)] at same
            cases same
        · rw [parseSliced_turn (turn_capture plain inside), parseFrom_capture plain inside]
          cases checkName topic (stripDots body).1 parts captures with
          | error e => rfl
          | ok _ =>
              have shorter : next.length < n := by
                rw [← size]
                simp
                omega
              exact inductionHypothesis next.length shorter _ _ _ rfl
      · rw [parseSliced_turn (turn_close plain), parseFrom_close plain]
        rfl

/-- A topic parses, with every slice on a character boundary, if and only if it is written from
well-formed parts; then its parts write it back. -/
theorem parse_syntax (topic : Str) :
    (parseSliced topic topic [] 0).map (·.map (TopicPattern.mk topic)) = some (parse topic) ∧
      ((∃ pattern, parse topic = .ok pattern) ↔
        ∃ parts, Wellformed parts ∧ parts.flatMap render = topic) ∧
      ∀ pattern, parse topic = .ok pattern → Written topic pattern := by
  refine ⟨?_, parse_ok_iff, fun pattern => written_of_parse⟩
  rw [parseSliced_eq]
  rfl

end TopicPattern

end AimDb.Topic
