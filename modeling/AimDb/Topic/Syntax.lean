import AimDb.Topic.Text
import Mathlib.Data.List.Chain
import Mathlib.Data.List.Nodup

/-!
# The syntax of topic patterns

A pattern is a sequence of texts without braces and of captures with distinct names.  Parsing
finds the longest texts, and its parts write the topic back.
-/

namespace AimDb.Topic.TopicPattern

variable {topic rest text body next name : Str} {parts parsed : List PatternPart} {captures : Nat}
  {multi : Bool}

def dots (multi : Bool) : Str := if multi then "..".toList else []

def render : PatternPart → Str
  | .text text => text
  | .capture name multi => '{' :: (name ++ dots multi ++ ['}'])

structure Wellformed (parts : List PatternPart) : Prop where
  plain : Braceless parts
  letters : ∀ name multi, .capture name multi ∈ parts →
    name ≠ [] ∧ ∀ c ∈ name, isNameChar c = true
  distinct : (parts.filterMap captureName).Nodup
  few : (parts.filterMap captureName).length ≤ maxCaptures

def isText : PatternPart → Bool
  | .text _ => true
  | .capture _ _ => false

structure Spaced (parts : List PatternPart) : Prop extends Wellformed parts where
  apart : parts.IsChain fun part after => isText part = false ∨ isText after = false
  nonempty : .text [] ∉ parts

structure Written (topic : Str) (pattern : TopicPattern) : Prop extends Spaced pattern.parts where
  same : pattern.topic = topic
  rendered : pattern.parts.flatMap render = topic
  numbered : pattern.captureNames.map some =
    (pattern.parts.filter fun part => !isText part).map captureName

theorem not_brace_of_isNameChar {c : Char} (letter : isNameChar c = true) :
    isBrace c = false ∧ c ≠ '.' := by
  constructor
  · by_contra brace
    rcases Bool.or_eq_true_iff.mp (eq_true_of_ne_false brace) with isOpen | isClose
    · rw [beq_iff_eq.mp isOpen] at letter
      exact absurd letter (by decide)
    · rw [beq_iff_eq.mp isClose] at letter
      exact absurd letter (by decide)
  · rintro rfl
    exact absurd letter (by decide)

theorem parseFrom_capture (plain : ∀ c ∈ text, isBrace c = false)
    (inside : ∀ c ∈ body, isBrace c = false) :
    parseFrom topic (text ++ '{' :: (body ++ '}' :: next)) parts captures =
      (checkName topic (stripDots body).1 parts captures).bind fun _ =>
        parseFrom topic next
          (parts ++ textPart text ++ [.capture (stripDots body).1 (stripDots body).2])
          (captures + 1) := by
  have opened : findBrace (text ++ '{' :: (body ++ '}' :: next)) =
      (text, '{' :: (body ++ '}' :: next)) := findBrace_append plain (by decide)
  have closed : findBrace (body ++ '}' :: next) = (body, '}' :: next) :=
    findBrace_append inside (by decide)
  conv_lhs => unfold parseFrom
  split
  next other =>
    cases opened.symm.trans other
  next front brace after other =>
    cases opened.symm.trans other
    rw [if_neg (by decide)]
    split
    next name tail ends =>
      cases closed.symm.trans ends
      rfl
    next mismatch => exact absurd closed (mismatch _ _)

theorem parseFrom_close (plain : ∀ c ∈ text, isBrace c = false) :
    parseFrom topic (text ++ '}' :: rest) parts captures =
      .error s!"unbalanced '\x7d' in '{String.ofList topic}'" := by
  have opened : findBrace (text ++ '}' :: rest) = (text, '}' :: rest) :=
    findBrace_append plain (by decide)
  unfold parseFrom
  split
  next other => cases opened.symm.trans other
  next front brace after other =>
    cases opened.symm.trans other
    rfl

theorem parseFrom_unclosed (plain : ∀ c ∈ text, isBrace c = false)
    (unclosed : ∀ body next, findBrace rest ≠ (body, '}' :: next)) :
    parseFrom topic (text ++ '{' :: rest) parts captures =
      .error s!"unbalanced '\x7b' in '{String.ofList topic}'" := by
  have opened : findBrace (text ++ '{' :: rest) = (text, '{' :: rest) :=
    findBrace_append plain (by decide)
  unfold parseFrom
  split
  next other => cases opened.symm.trans other
  next front brace after other =>
    cases opened.symm.trans other
    rw [if_neg (by decide)]
    split
    next body next ends => exact absurd ends (unclosed body next)
    · rfl

theorem stripDots_append (letters : ∀ c ∈ name, isNameChar c = true) (multi : Bool) :
    stripDots (name ++ dots multi) = (name, multi) := by
  unfold stripDots dots
  cases multi with
  | true =>
      have stripped : "..".toList.isSuffixOf? (name ++ "..".toList) = some name := by simp
      simp only [if_true, stripped]
  | false =>
      rw [if_neg (by decide), List.append_nil]
      split
      next front stripped =>
        have back := List.append_eq_of_isSuffixOf?_eq_some stripped
        have dot : '.' ∈ name := by
          rw [← back]
          exact List.mem_append_right _ (by decide)
        exact absurd rfl (not_brace_of_isNameChar (letters '.' dot)).2
      · rfl

theorem append_stripDots (body : Str) : (stripDots body).1 ++ dots (stripDots body).2 = body := by
  unfold stripDots
  split
  next name stripped => exact List.append_eq_of_isSuffixOf?_eq_some stripped
  · exact List.append_nil _

theorem named_iff : named parts name = true ↔ name ∈ parts.filterMap captureName := by
  rw [named, List.any_eq_true, List.mem_filterMap]
  constructor
  · rintro ⟨part, mem, isName⟩
    cases part with
    | text text => cases isName
    | capture other multi => exact ⟨_, mem, congrArg some (beq_iff_eq.mp isName)⟩
  · rintro ⟨part, mem, isName⟩
    cases part with
    | text text => cases isName
    | capture other multi => exact ⟨_, mem, beq_iff_eq.mpr (Option.some.inj isName)⟩

theorem checkName_iff : checkName topic name parts captures = .ok () ↔
    (name ≠ [] ∧ ∀ c ∈ name, isNameChar c = true) ∧
    name ∉ parts.filterMap captureName ∧
      captures ≠ maxCaptures := by
  unfold checkName
  constructor
  · intro ok
    split at ok
    · cases ok
    next nonempty =>
      split at ok
      · cases ok
      next letters =>
        split at ok
        · cases ok
        next fresh =>
          split at ok
          · cases ok
          next room =>
            rw [named_iff] at fresh
            exact ⟨⟨by simpa using nonempty, by simpa using letters⟩, fresh, room⟩
  · rintro ⟨⟨nonempty, letters⟩, fresh, room⟩
    have lettered : name.all isNameChar = true := List.all_eq_true.mpr letters
    rw [← named_iff] at fresh
    rw [if_neg (by simpa using nonempty), if_neg (by rw [lettered]; decide), if_neg fresh,
      if_neg room]

theorem render_textPart (text : Str) : (textPart text).flatMap render = text := by
  cases text with
  | nil => rfl
  | cons c text => simp [textPart, render]

theorem spaced_nil : Spaced [] where
  plain _ mem := by cases mem
  letters _ _ mem := by cases mem
  distinct := .nil
  few := Nat.zero_le _
  apart := .nil
  nonempty mem := by cases mem

theorem mem_textPart {part : PatternPart} (mem : part ∈ textPart text) :
    part = .text text ∧ text ≠ [] := by
  unfold textPart at mem
  split at mem
  · cases mem
  next nonempty => exact ⟨List.mem_singleton.mp mem, by simpa using nonempty⟩

theorem Spaced.withText (spaced : Spaced parts)
    (last : ∀ part ∈ parts.getLast?, isText part = false)
    (plain : ∀ c ∈ text, isBrace c = false) : Spaced (parts ++ textPart text) where
  plain := spaced.plain.append (braceless_textPart plain)
  letters name multi mem := by
    rcases List.mem_append.mp mem with mem | mem
    · exact spaced.letters name multi mem
    · cases (mem_textPart mem).1
  distinct := by
    rw [List.filterMap_append, filterMap_textPart, List.append_nil]
    exact spaced.distinct
  few := by
    rw [List.filterMap_append, filterMap_textPart, List.append_nil]
    exact spaced.few
  apart := by
    rw [List.isChain_append]
    refine ⟨spaced.apart, ?_, fun part isLast _ _ => .inl (last part isLast)⟩
    unfold textPart
    split
    · exact .nil
    · exact .singleton _
  nonempty mem := by
    rcases List.mem_append.mp mem with mem | mem
    · exact spaced.nonempty mem
    · obtain ⟨same, nonempty⟩ := mem_textPart mem
      exact nonempty (PatternPart.text.inj same).symm

theorem Spaced.withCapture (spaced : Spaced parts)
    (letters : name ≠ [] ∧ ∀ c ∈ name, isNameChar c = true)
    (fresh : name ∉ parts.filterMap captureName)
    (room : (parts.filterMap captureName).length < maxCaptures) (multi : Bool) :
    Spaced (parts ++ [.capture name multi]) where
  plain := spaced.plain.append (braceless_capture name multi)
  letters other many mem := by
    rcases List.mem_append.mp mem with mem | mem
    · exact spaced.letters other many mem
    · cases List.mem_singleton.mp mem
      exact letters
  distinct := by
    rw [List.filterMap_append]
    change (parts.filterMap captureName ++ [name]).Nodup
    rw [← List.concat_eq_append]
    exact List.Nodup.concat fresh spaced.distinct
  few := by
    rw [List.filterMap_append, List.length_append]
    exact room
  apart := by
    rw [List.isChain_append]
    refine ⟨spaced.apart, .singleton _, ?_⟩
    rintro _ _ after ⟨⟩
    exact .inr rfl
  nonempty mem := by
    rcases List.mem_append.mp mem with mem | mem
    · exact spaced.nonempty mem
    · cases List.mem_singleton.mp mem

/-- The loop writes back what it has read, and keeps the texts apart. -/
theorem parseFrom_written (spaced : Spaced parts)
    (last : ∀ part ∈ parts.getLast?, isText part = false)
    (counted : captures = (parts.filterMap captureName).length)
    (ok : parseFrom topic rest parts captures = .ok parsed) :
    Spaced parsed ∧ parsed.flatMap render = parts.flatMap render ++ rest := by
  induction size : rest.length using Nat.strong_induction_on generalizing rest parts captures with
  | _ n inductionHypothesis =>
      rcases parseFrom_turn ok with
        ⟨plain, rfl⟩ | ⟨text, body, next, rfl, plain, checked, ok⟩
      · exact ⟨spaced.withText last plain, by rw [List.flatMap_append, render_textPart]⟩
      · obtain ⟨letters, fresh, room⟩ := checkName_iff.mp checked
        have textual := spaced.withText last plain
        have captureless : (parts ++ textPart text).filterMap captureName =
            parts.filterMap captureName := by
          rw [List.filterMap_append, filterMap_textPart, List.append_nil]
        have few := spaced.few
        have spacedNext := textual.withCapture letters (by rwa [captureless])
          (by rw [captureless]; omega) (stripDots body).2
        have shorter : next.length < n := by
          rw [← size]
          simp
          omega
        obtain ⟨spacedParsed, rendered⟩ := inductionHypothesis next.length shorter spacedNext
          (by simp [isText]) (by simp [captureName, filterMap_textPart, counted]) ok rfl
        refine ⟨spacedParsed, ?_⟩
        rw [rendered, List.flatMap_append, List.flatMap_append, render_textPart]
        simp [render, append_stripDots]

theorem exists_capture (plain : Braceless parts) :
    (∀ c ∈ parts.flatMap render, isBrace c = false) ∧ parts.filterMap captureName = [] ∨
      ∃ front name multi more, parts = front ++ .capture name multi :: more ∧
        (∀ c ∈ front.flatMap render, isBrace c = false) ∧
        front.filterMap captureName = [] := by
  induction parts with
  | nil => exact .inl ⟨fun _ mem => absurd mem List.not_mem_nil, rfl⟩
  | cons part parts inductionHypothesis =>
      cases part with
      | capture name multi =>
          exact .inr ⟨[], name, multi, parts, rfl,
            fun _ mem => absurd mem List.not_mem_nil, rfl⟩
      | text text =>
          have here := plain text List.mem_cons_self
          have prefixed : ∀ front : List PatternPart,
              (∀ c ∈ front.flatMap render, isBrace c = false) →
              ∀ c ∈ (.text text :: front : List PatternPart).flatMap render,
              isBrace c = false := by
            intro front rest c mem
            rw [List.flatMap_cons] at mem
            exact (List.mem_append.mp mem).elim (here c) (rest c)
          rcases inductionHypothesis fun other mem => plain other (List.mem_cons_of_mem _ mem) with
            ⟨rest, none⟩ | ⟨front, name, multi, more, rfl, rest, none⟩
          · exact .inl ⟨prefixed parts rest, none⟩
          · exact .inr ⟨.text text :: front, name, multi, more, rfl, prefixed front rest, none⟩

theorem parseFrom_render {more : List PatternPart} (plain : Braceless more)
    (letters : ∀ name multi, .capture name multi ∈ more →
      name ≠ [] ∧ ∀ c ∈ name, isNameChar c = true)
    (distinct : (parts.filterMap captureName ++ more.filterMap captureName).Nodup)
    (few : captures + (more.filterMap captureName).length ≤ maxCaptures) :
    ∃ parsed, parseFrom topic (more.flatMap render) parts captures = .ok parsed := by
  induction size : more.length using Nat.strong_induction_on generalizing more parts captures with
  | _ n inductionHypothesis =>
      rcases exists_capture plain with ⟨braceless, -⟩ |
        ⟨front, name, multi, after, rfl, braceless, none⟩
      · exact ⟨_, parseFrom_plain braceless⟩
      · have named := letters name multi (by simp)
        have inside : ∀ c ∈ name ++ dots multi, isBrace c = false := by
          intro c mem
          rcases List.mem_append.mp mem with mem | mem
          · exact (not_brace_of_isNameChar (named.2 c mem)).1
          · cases multi with
            | false => cases mem
            | true =>
                obtain rfl : c = '.' := by simpa [dots] using mem
                decide
        have written : (front ++ .capture name multi :: after).flatMap render =
            front.flatMap render ++ '{' :: (name ++ dots multi ++ '}' :: after.flatMap render) := by
          simp [render]
        have captured : (front ++ .capture name multi :: after).filterMap captureName =
            name :: after.filterMap captureName := by
          rw [List.filterMap_append, none]
          rfl
        rw [captured] at distinct few
        have checked : checkName topic name parts captures = .ok () := by
          apply checkName_iff.mpr
          refine ⟨named, ?_, ?_⟩
          · intro mem
            exact (List.nodup_append.mp distinct).2.2 name mem name List.mem_cons_self rfl
          · rw [List.length_cons] at few
            omega
        rw [written, parseFrom_capture braceless inside, stripDots_append named.2, checked]
        apply inductionHypothesis after.length _ _ _ _ _ rfl
        · rw [← size]
          simp
          omega
        · exact fun other mem => plain other (by simp [mem])
        · exact fun other many mem => letters other many (by simp [mem])
        · simpa [filterMap_textPart, captureName] using distinct
        · rw [List.length_cons] at few
          omega

theorem numbered_captures (parts : List PatternPart) :
    (parts.filterMap captureName).map some =
      (parts.filter fun part => !isText part).map captureName := by
  induction parts with
  | nil => rfl
  | cons part parts inductionHypothesis =>
      cases part with
      | text text => exact inductionHypothesis
      | capture name multi => exact congrArg (List.cons (some name)) inductionHypothesis

theorem written_of_parse {pattern : TopicPattern} (ok : parse topic = .ok pattern) :
    Written topic pattern := by
  obtain ⟨parts, parsed, rfl⟩ := map_eq_ok ok
  obtain ⟨spaced, rendered⟩ :=
    parseFrom_written spaced_nil (fun _ mem => by cases mem) rfl parsed
  exact
    { spaced with
      same := rfl
      rendered := rendered
      numbered := by rw [captureNames_eq]; exact numbered_captures parts }

theorem parse_ok_iff : (∃ pattern, parse topic = .ok pattern) ↔
    ∃ parts, Wellformed parts ∧ parts.flatMap render = topic := by
  constructor
  · rintro ⟨pattern, ok⟩
    have written := written_of_parse ok
    exact ⟨pattern.parts, written.toWellformed, written.rendered⟩
  · rintro ⟨parts, wellformed, rfl⟩
    have few : 0 + (parts.filterMap captureName).length ≤ maxCaptures := by
      rw [Nat.zero_add]
      exact wellformed.few
    have distinct : (([] : List PatternPart).filterMap captureName ++
        parts.filterMap captureName).Nodup := wellformed.distinct
    obtain ⟨parsed, ok⟩ := parseFrom_render wellformed.plain wellformed.letters distinct few
    exact ⟨⟨_, parsed⟩, by rw [parse, ok]; rfl⟩

end AimDb.Topic.TopicPattern
