import AimDb.Json.Text

/-!
# Reading a compact object back into its members

A value is passed over by counting brackets outside strings; a member's value
therefore ends at the first separator met at depth zero.
-/

namespace AimDb.Json

inductive Mode where
  | outside
  | inString
  | escaped
  deriving DecidableEq

/-- Where a left-to-right pass over a value stands. -/
structure Scan where
  depth : ℕ
  mode : Mode
  deriving DecidableEq

namespace Scan

def step (scan : Scan) (b : UInt8) : Scan :=
  match scan.mode with
  | .escaped => { scan with mode := .inString }
  | .inString =>
      if b = quote then { scan with mode := .outside }
      else if b = backslash then { scan with mode := .escaped }
      else scan
  | .outside =>
      if b = quote then { scan with mode := .inString }
      else if b = openBrace ∨ b = openBracket then { scan with depth := scan.depth + 1 }
      else if b = closeBrace ∨ b = closeBracket then { scan with depth := scan.depth - 1 }
      else scan

/-- The byte ends the value being scanned and is not part of it. -/
def Stops (scan : Scan) (b : UInt8) : Prop :=
  scan.mode = .outside ∧ scan.depth = 0 ∧ (b = comma ∨ b = closeBrace ∨ b = closeBracket)

instance (scan : Scan) (b : UInt8) : Decidable (scan.Stops b) :=
  inferInstanceAs (Decidable (_ ∧ _ ∧ _))

end Scan

def takeValue (scan : Scan) : Bytes → Bytes × Bytes
  | [] => ([], [])
  | b :: bytes =>
      if scan.Stops b then ([], b :: bytes)
      else
        let split := takeValue (scan.step b) bytes
        (b :: split.1, split.2)

/-- Members up to the closing brace.  Each one takes at least one byte, so the
number of bytes is fuel enough. -/
def readMembers : ℕ → Bytes → Option (List (String × Bytes))
  | fuel + 1, b :: bytes =>
      if b = quote then
        let key := bytes.takeWhile (· ≠ quote)
        match fromUtf8? key, bytes.drop (key.length + 1) with
        | some name, c :: text =>
            if c = colon then
              let split := takeValue ⟨0, .outside⟩ text
              match split.2 with
              | separator :: more =>
                  if separator = comma then
                    (readMembers fuel more).map fun members => (name, split.1) :: members
                  else if separator = closeBrace ∧ more = [] then some [(name, split.1)]
                  else none
              | [] => none
            else none
        | _, _ => none
      else none
  | _, _ => none

/-- The members of a compact object, each with the verbatim text of its value. -/
def readObject : Bytes → Option (List (String × Bytes))
  | [] => none
  | b :: bytes =>
      if b = openBrace then
        if bytes = [closeBrace] then some [] else readMembers bytes.length bytes
      else none

/-- Scanning moves over these bytes without stopping inside them. -/
def Skips (s t : Scan) (bytes : Bytes) : Prop :=
  ∀ rest, takeValue s (bytes ++ rest) = (bytes ++ (takeValue t rest).1, (takeValue t rest).2)

theorem Skips.nil (s : Scan) : Skips s s [] := fun _ => rfl

theorem Skips.append {s t u : Scan} {front back : Bytes} (first : Skips s t front)
    (second : Skips t u back) : Skips s u (front ++ back) := by
  intro rest
  rw [List.append_assoc, first, second, List.append_assoc]

theorem Skips.single {s t : Scan} {b : UInt8} (goesOn : ¬ s.Stops b) (next : s.step b = t) :
    Skips s t [b] := by
  intro rest
  simp [takeValue, goesOn, next]

theorem Skips.cons {s t u : Scan} {b : UInt8} {bytes : Bytes} (goesOn : ¬ s.Stops b)
    (next : s.step b = t) (tail : Skips t u bytes) : Skips s u (b :: bytes) :=
  (Skips.single goesOn next).append tail

/-- A byte outside strings that neither opens, closes nor separates. -/
def IsNeutral (b : UInt8) : Prop :=
  b ∉ [quote, openBrace, closeBrace, openBracket, closeBracket, comma]

instance (b : UInt8) : Decidable (IsNeutral b) := inferInstanceAs (Decidable (b ∉ _))

theorem IsDigit.isNeutral {b : UInt8} (digit : IsDigit b) : IsNeutral b := by
  intro special
  simp only [List.mem_cons, List.not_mem_nil, or_false] at special
  rcases special with rfl | rfl | rfl | rfl | rfl | rfl <;> exact absurd digit (by decide)

theorem skips_neutral {depth : ℕ} {bytes : Bytes} (neutral : ∀ b ∈ bytes, IsNeutral b) :
    Skips ⟨depth, .outside⟩ ⟨depth, .outside⟩ bytes := by
  induction bytes with
  | nil => exact .nil _
  | cons b bytes ih =>
    have head := neutral b (by simp)
    simp only [IsNeutral, List.mem_cons, List.not_mem_nil, or_false, not_or] at head
    refine .cons ?_ ?_ (ih fun c mem => neutral c (by simp [mem]))
    · simp [Scan.Stops, head]
    · simp [Scan.step, head]

theorem skips_stringBody {depth : ℕ} {body : Bytes} (isBody : IsStringBody body) :
    Skips ⟨depth, .inString⟩ ⟨depth, .inString⟩ body := by
  have inside {b : UInt8} {mode : Mode} (string : mode ≠ .outside) :
      ¬ Scan.Stops ⟨depth, mode⟩ b := fun stops => string stops.1
  have plain {b : UInt8} (isPlain : IsPlainByte b) :
      Scan.step ⟨depth, .inString⟩ b = ⟨depth, .inString⟩ := by
    simp [Scan.step, isPlain.2.1, isPlain.2.2]
  have escape : Scan.step ⟨depth, .inString⟩ backslash = ⟨depth, .escaped⟩ := by
    have : backslash ≠ quote := by decide
    simp [Scan.step, this]
  have hex {b : UInt8} (isHex : IsHexDigit b) := plain isHex.isPlainByte
  induction isBody with
  | nil => exact .nil _
  | plain isPlain _ ih => exact .cons (inside (by decide)) (plain isPlain) ih
  | escape _ _ ih => exact .cons (inside (by decide)) escape (.cons (inside (by decide)) rfl ih)
  | unicode h₁ h₂ h₃ h₄ _ ih =>
    exact .cons (inside (by decide)) escape <| .cons (inside (by decide)) rfl <|
      .cons (inside (by decide)) (hex h₁) <| .cons (inside (by decide)) (hex h₂) <|
      .cons (inside (by decide)) (hex h₃) <| .cons (inside (by decide)) (hex h₄) ih

theorem skips_string {depth : ℕ} {body : Bytes} (isBody : IsStringBody body) :
    Skips ⟨depth, .outside⟩ ⟨depth, .outside⟩ (quote :: body ++ [quote]) := by
  have opening : ¬ Scan.Stops ⟨depth, .outside⟩ quote :=
    fun stops => absurd stops.2.2 (by decide)
  have closing : ¬ Scan.Stops ⟨depth, .inString⟩ quote := fun stops => nomatch stops.1
  exact .cons opening rfl ((skips_stringBody isBody).append (.single closing rfl))

theorem skips_blank {depth : ℕ} {bytes : Bytes} (blank : IsBlank bytes) :
    Skips ⟨depth, .outside⟩ ⟨depth, .outside⟩ bytes := by
  refine skips_neutral fun b mem => ?_
  rcases blank b mem with rfl | rfl | rfl | rfl <;> decide

theorem IsDigits.neutral {bytes : Bytes} (digits : IsDigits bytes) :
    ∀ b ∈ bytes, IsNeutral b := fun b mem => (digits.2 b mem).isNeutral

theorem IsNumber.neutral {bytes : Bytes} (number : IsNumber bytes) :
    ∀ b ∈ bytes, IsNeutral b := by
  obtain ⟨sign, int, frac, exp, rfl, isSign, isInt, isFrac, isExp⟩ := number
  simp only [List.mem_append]
  rintro b (((inSign | inInt) | inFrac) | inExp)
  · rcases isSign with rfl | rfl
    · simp at inSign
    · obtain rfl := List.mem_singleton.mp inSign
      decide
  · rcases isInt with rfl | ⟨digits, -⟩
    · obtain rfl := List.mem_singleton.mp inInt
      decide
    · exact digits.neutral b inInt
  · rcases isFrac with rfl | ⟨digits, rfl, isDigits⟩
    · simp at inFrac
    · rcases List.mem_cons.mp inFrac with rfl | inDigits
      · decide
      · exact isDigits.neutral b inDigits
  · rcases isExp with rfl | ⟨e, sign, digits, rfl, isE, isSign, isDigits⟩
    · simp at inExp
    simp only [List.mem_cons, List.mem_append] at inExp
    rcases inExp with rfl | inSign | inDigits
    · rcases isE with rfl | rfl <;> decide
    · rcases isSign with rfl | rfl | rfl <;> simp at inSign <;> subst inSign <;> decide
    · exact isDigits.neutral b inDigits

/-- How deep a part of the grammar stands inside brackets at least. -/
def Part.depth : Part → ℕ
  | .value => 0
  | .elements => 1
  | .members => 1

theorem skips_comma {depth : ℕ} :
    Skips ⟨depth + 1, .outside⟩ ⟨depth + 1, .outside⟩ [comma] :=
  .single (fun stops => nomatch stops.2.1) rfl

theorem skips_brackets {depth : ℕ} {opening closing : UInt8} {inside : Bytes}
    (opens : opening = openBrace ∨ opening = openBracket)
    (closes : closing = closeBrace ∨ closing = closeBracket)
    (body : Skips ⟨depth + 1, .outside⟩ ⟨depth + 1, .outside⟩ inside) :
    Skips ⟨depth, .outside⟩ ⟨depth, .outside⟩ (opening :: inside ++ [closing]) := by
  refine .cons (t := ⟨depth + 1, .outside⟩) ?_ ?_ (body.append (.single ?_ ?_))
  · rcases opens with rfl | rfl <;> exact fun stops => absurd stops.2.2 (by decide)
  · rcases opens with rfl | rfl <;> rfl
  · exact fun stops => nomatch stops.2.1
  · rcases closes with rfl | rfl <;> rfl

theorem skips_member {depth : ℕ} {w₁ key w₂ w₃ v w₄ : Bytes} (blank₁ : IsBlank w₁)
    (isKey : IsStringBody key) (blank₂ : IsBlank w₂) (blank₃ : IsBlank w₃)
    (value : Skips ⟨depth, .outside⟩ ⟨depth, .outside⟩ v) (blank₄ : IsBlank w₄) :
    Skips ⟨depth, .outside⟩ ⟨depth, .outside⟩
      (w₁ ++ (quote :: key ++ [quote]) ++ w₂ ++ colon :: (w₃ ++ v ++ w₄)) := by
  have separator : Skips ⟨depth, .outside⟩ ⟨depth, .outside⟩ [colon] :=
    skips_neutral (by decide +kernel)
  exact (((skips_blank blank₁).append (skips_string isKey)).append (skips_blank blank₂)).append
    (separator.append (((skips_blank blank₃).append value).append (skips_blank blank₄)))

/-- Every part of the grammar is passed over whole, a list of elements or
members from inside its bracket. -/
theorem skips_derived {part : Part} {bytes : Bytes} (derived : Derives part bytes) (depth : ℕ) :
    Skips ⟨depth + part.depth, .outside⟩ ⟨depth + part.depth, .outside⟩ bytes := by
  induction derived generalizing depth with
  | literal isLiteral =>
    refine skips_neutral ?_
    simp only [List.mem_cons, List.not_mem_nil, or_false] at isLiteral
    rcases isLiteral with rfl | rfl | rfl <;> decide +kernel
  | number isNumber => exact skips_neutral isNumber.neutral
  | string isBody => exact skips_string isBody
  | emptyArray blank => exact skips_brackets (.inr rfl) (.inr rfl) (skips_blank blank)
  | array _ ih => exact skips_brackets (.inr rfl) (.inr rfl) (ih depth)
  | emptyObject blank => exact skips_brackets (.inl rfl) (.inl rfl) (skips_blank blank)
  | object _ ih => exact skips_brackets (.inl rfl) (.inl rfl) (ih depth)
  | lastElement blank₁ _ blank₂ ih =>
    exact ((skips_blank blank₁).append (ih (depth + 1))).append (skips_blank blank₂)
  | element blank₁ _ blank₂ _ ih ihItems =>
    exact (((skips_blank blank₁).append (ih (depth + 1))).append (skips_blank blank₂)).append
      (skips_comma.append (ihItems depth))
  | lastMember blank₁ isKey blank₂ blank₃ _ blank₄ ih =>
    exact skips_member blank₁ isKey blank₂ blank₃ (ih (depth + 1)) blank₄
  | member blank₁ isKey blank₂ blank₃ _ blank₄ _ ih ihItems =>
    exact (skips_member blank₁ isKey blank₂ blank₃ (ih (depth + 1)) blank₄).append
      (skips_comma.append (ihItems depth))

theorem takeValue_whole {value : Bytes} (isValue : IsValue value) :
    takeValue ⟨0, .outside⟩ value = (value, []) := by
  have whole := skips_derived isValue 0 []
  simpa [takeValue, Part.depth] using whole

theorem takeValue_value {value rest : Bytes} {separator : UInt8} (isValue : IsValue value)
    (separates : separator = comma ∨ separator = closeBrace) :
    takeValue ⟨0, .outside⟩ (value ++ separator :: rest) = (value, separator :: rest) := by
  have stops : Scan.Stops ⟨0, .outside⟩ separator :=
    ⟨rfl, rfl, separates.imp_right .inl⟩
  rw [show takeValue ⟨0, .outside⟩ (value ++ separator :: rest) = _ from
    skips_derived isValue 0 (separator :: rest)]
  simp [takeValue, Part.depth, stops]

theorem takeWhile_key {name : String} (plain : IsPlain name) (rest : Bytes) :
    (utf8 name ++ quote :: rest).takeWhile (· ≠ quote) = utf8 name := by
  rw [List.takeWhile_append_of_pos fun b mem => by simpa using (plain b mem).2.1]
  simp

theorem readMembers_memberText {name : String} {value more : Bytes} {separator : UInt8} {fuel : ℕ}
    (plain : IsPlain name) (isValue : IsValue value)
    (separates : separator = comma ∨ separator = closeBrace) :
    readMembers (fuel + 1) (memberText (name, value) ++ separator :: more) =
      if separator = comma then
        (readMembers fuel more).map fun members => (name, value) :: members
      else if separator = closeBrace ∧ more = [] then some [(name, value)]
      else none := by
  have shape : memberText (name, value) ++ separator :: more =
      quote :: (utf8 name ++ quote :: (colon :: (value ++ separator :: more))) := by
    simp [memberText]
  have afterKey : (utf8 name ++ quote :: (colon :: (value ++ separator :: more))).drop
      ((utf8 name).length + 1) = colon :: (value ++ separator :: more) := by
    rw [← List.drop_drop, List.drop_left, List.drop_one, List.tail_cons]
  rw [shape, readMembers, if_pos rfl]
  simp only [takeWhile_key plain, fromUtf8?_utf8, afterKey, if_pos,
    takeValue_value isValue separates]

theorem readMembers_text {members : List (String × Bytes)} (nonempty : members ≠ [])
    (wellFormed : ∀ m ∈ members, IsPlain m.1 ∧ IsValue m.2) {fuel : ℕ}
    (enough : members.length ≤ fuel) :
    readMembers fuel ([comma].intercalate (members.map memberText) ++ [closeBrace]) =
      some members := by
  induction members generalizing fuel with
  | nil => exact absurd rfl nonempty
  | cons m members ih =>
    obtain ⟨plain, isValue⟩ := wellFormed m (by simp)
    obtain ⟨fuel, rfl⟩ := Nat.exists_eq_succ_of_ne_zero (n := fuel) (by simp at enough; omega)
    cases members with
    | nil =>
      have notComma : closeBrace ≠ comma := by decide
      simp only [List.map_cons, List.map_nil, List.intercalate_singleton]
      rw [readMembers_memberText plain isValue (.inr rfl), if_neg notComma, if_pos ⟨rfl, rfl⟩]
    | cons next members =>
      have shorter : (next :: members).length ≤ fuel := by simpa using enough
      have tail := ih (by simp) (fun n mem => wellFormed n (by simp [mem])) shorter
      simp only [List.map_cons, List.intercalate_cons_cons, List.append_assoc, List.cons_append,
        List.nil_append] at tail ⊢
      rw [readMembers_memberText plain isValue (.inl rfl), if_pos rfl, tail]
      rfl

theorem length_le_intercalate (members : List (String × Bytes)) :
    members.length ≤ ([comma].intercalate (members.map memberText)).length := by
  induction members with
  | nil => simp
  | cons m members ih =>
    cases members with
    | nil => simp [memberText]
    | cons next members =>
      simp only [List.map_cons, List.intercalate_cons_cons, List.length_append,
        List.length_cons] at ih ⊢
      simp only [List.length_nil]
      omega

theorem readObject_objectText {members : List (String × Bytes)}
    (wellFormed : ∀ m ∈ members, IsPlain m.1 ∧ IsValue m.2) :
    readObject (objectText members) = some members := by
  cases members with
  | nil => decide
  | cons m members =>
    have inside : [comma].intercalate ((m :: members).map memberText) ++ [closeBrace] ≠
        [closeBrace] := by
      intro same
      have none := congrArg List.length same
      have long := length_le_intercalate (m :: members)
      simp only [List.length_append, List.length_cons, List.length_nil] at none long
      omega
    simp only [readObject, objectText, List.cons_append, if_pos, if_neg inside]
    refine readMembers_text (by simp) wellFormed ?_
    have long := length_le_intercalate (m :: members)
    simp only [List.length_append, List.length_cons] at long ⊢
    omega

end AimDb.Json
