import AimDb.Contracts.Lock.Shape
import AimDb.Fallible

/-!
# What is written reads back

Each function of the writer gives a text that reads back as a term of what it was
given, or it was given something that was not traced.
-/

namespace AimDb.Contracts.Shape

open Unrolling

abbrev Inline (registry : Registry) (stack : List String) : Format → Term Label → Prop :=
  Inlines Label.opens .untraced registry.view (stack.map Format.typeName)

structure Reads (text : String) (term : Term Label) : Prop where
  starts : ∃ c rest, text.toList = c :: rest ∧ isWordChar c = true
  back : ∀ fuel rest, Ends rest → text.length < fuel →
    readTerm fuel (text.toList ++ rest) = some (term, rest)

def Separated (separator text : String) : Prop := text = "" ∨ ∃ more, text = separator ++ more

structure ReadsItems (separator text : String) (terms : List (Term Label)) : Prop where
  separated : Separated separator text
  back : ∀ fuel rest, text.length + 1 < fuel →
    readItems fuel separator (text.toList ++ (")".toList ++ rest)) = some (terms, rest)

def closes {α : Type} (closing : String) (entries : List α) : String :=
  if entries.isEmpty then closing else " \x7d"

/-- The separator in front of the next entry and what closes where none comes. -/
def Next (separator closing : String) : Prop :=
  separator = " " ∧ closing = "\x7d" ∨ separator = ", " ∧ closing = " \x7d"

structure ReadsFields (separator text : String) (names : List String) (terms : List (Term Label)) :
    Prop where
  separated : Separated separator text
  back : ∀ fuel closing rest, text.length + 1 < fuel → Next separator closing →
    readFields fuel separator closing (text.toList ++ ((closes closing names).toList ++ rest)) =
      some (names, terms, rest)

structure ReadsVariants (separator text : String) (payloads : List (UInt32 × String × Payload))
    (terms : List (Term Label)) : Prop where
  separated : Separated separator text
  back : ∀ fuel closing rest, text.length + 1 < fuel → Next separator closing →
    readVariants fuel separator closing
      (text.toList ++ ((closes closing payloads).toList ++ rest)) =
      some (payloads, terms, rest)

def FollowsVariant (rest : List Char) : Prop :=
  (∃ more, rest = ", ".toList ++ more) ∨ ∃ more, rest = " \x7d".toList ++ more

def ReadsPayload (text : String) (payload : Payload) (terms : List (Term Label)) : Prop :=
  ∀ fuel rest, FollowsVariant rest → text.length + 1 < fuel →
    readPayload fuel (text.toList ++ rest) = some (payload, terms, rest)

theorem ends_text {mark : String}
    (stops : mark.toList.head?.any (fun c => !isWordChar c) = true) (rest : List Char) :
    Ends (mark.toList ++ rest) := by
  cases text : mark.toList with
  | nil =>
      rw [text] at stops
      cases stops
  | cons c more =>
      rw [text] at stops
      intro d isHead
      obtain rfl := Option.some.inj isHead
      simpa using stops

theorem length_text (head : Head) : 2 ≤ head.text.length := by
  rcases head with kind | _
  · cases kind <;> decide
  all_goals decide

theorem reads_of_body {head : Head} {body : String} {term : Term Label}
    (stops : ∀ rest, Ends rest → Ends (body.toList ++ rest))
    (back : ∀ fuel rest, Ends rest → body.length < fuel →
      readBody (fuel + 1) head (body.toList ++ rest) = some (term, rest)) :
    Reads (head.text ++ body) term := by
  have long := length_text head
  constructor
  · cases text : head.text.toList with
    | nil =>
        rw [← String.length_toList, text] at long
        simp at long
    | cons c more =>
        refine ⟨c, more ++ body.toList,
          by rw [String.toList_append, text, List.cons_append], ?_⟩
        exact isWordChar_text head c (by rw [text]; exact List.mem_cons_self)
  · intro fuel rest ends enough
    rw [String.length_append] at enough
    obtain ⟨fuel, rfl⟩ : ∃ more, fuel = more + 2 := ⟨fuel - 2, by omega⟩
    rw [String.toList_append, List.append_assoc, readTerm, readHead_text head (stops rest ends)]
    exact back fuel rest ends (by omega)

theorem toList_append₃ (a b c : String) (rest : List Char) :
    (a ++ b ++ c).toList ++ rest = a.toList ++ (b.toList ++ (c.toList ++ rest)) := by
  simp only [String.toList_append, List.append_assoc]

theorem Reads.between {text : String} {term : Term Label} (reads : Reads text term)
    {opening closing : String}
    (stops : closing.toList.head?.any (fun c => !isWordChar c) = true) {fuel : ℕ}
    (enough : text.length < fuel) (rest : List Char) (node : Term Label → Term Label) :
    (do
      let (inner, text) ← readTerm fuel
        (← expect opening ((opening ++ text ++ closing).toList ++ rest))
      return (node inner, ← expect closing text)) = some (node term, rest) := by
  rw [toList_append₃, expect_append]
  simp only [Option.bind_eq_bind, Option.bind_some, reads.back fuel _ (ends_text stops rest) enough,
    expect_append]
  rfl

theorem ends_body {mark body : String}
    (stops : mark.toList.head?.any (fun c => !isWordChar c) = true) (rest : List Char) :
    Ends ((mark ++ body).toList ++ rest) := by
  rw [String.toList_append, List.append_assoc]
  exact ends_text stops _

theorem reads_primitive (kind : Primitive) : Reads kind.text (.node (.primitive kind) []) := by
  have reads : Reads ((Head.primitive kind).text ++ "") (.node (.primitive kind) []) :=
    reads_of_body (fun _ ends => ends) fun _ _ _ _ => rfl
  rwa [String.append_empty] at reads

theorem reads_unitStruct : Reads "unit_struct" (.node .unitStruct []) :=
  @reads_of_body .unitStruct "" _ (fun _ ends => ends) fun _ _ _ _ => rfl

theorem reads_between {head : Head} {opening closing text : String} {term : Term Label}
    {node : Term Label → Term Label} (reads : Reads text term)
    (opens : opening.toList.head?.any (fun c => !isWordChar c) = true)
    (stops : closing.toList.head?.any (fun c => !isWordChar c) = true)
    (body : ∀ fuel rest, readBody (fuel + 1) head rest = (do
      let (inner, text) ← readTerm fuel (← expect opening rest)
      return (node inner, ← expect closing text))) :
    Reads (head.text ++ opening ++ text ++ closing) (node term) := by
  rw [String.append_assoc, String.append_assoc]
  apply reads_of_body
  · intro rest _
    exact ends_body opens rest
  · intro fuel rest _ enough
    rw [String.length_append, String.length_append] at enough
    rw [body, ← String.append_assoc]
    exact reads.between stops (by omega) rest node

theorem reads_option {text : String} {term : Term Label} (reads : Reads text term) :
    Reads ("option<" ++ text ++ ">") (.node .option [term]) :=
  @reads_between .option "<" ">" text term (fun inner => .node .option [inner]) reads (by decide)
    (by decide) fun _ _ => rfl

theorem reads_seq {text : String} {term : Term Label} (reads : Reads text term) :
    Reads ("seq<" ++ text ++ ">") (.node .seq [term]) :=
  @reads_between .seq "<" ">" text term (fun inner => .node .seq [inner]) reads (by decide)
    (by decide) fun _ _ => rfl

theorem reads_newTypeStruct {text : String} {term : Term Label} (reads : Reads text term) :
    Reads ("newtype(" ++ text ++ ")") (.node .newTypeStruct [term]) :=
  @reads_between .newtype "(" ")" text term (fun inner => .node .newTypeStruct [inner]) reads
    (by decide) (by decide) fun _ _ => rfl

theorem reads_back (levels : ℕ) : Reads ("rec(" ++ toString levels ++ ")") (.back levels) := by
  have whole : "rec(" ++ toString levels ++ ")" =
      Head.back.text ++ ("(" ++ toString levels ++ ")") := by
    rw [← String.append_assoc, ← String.append_assoc]
    rfl
  rw [whole]
  apply reads_of_body
  · intro rest _
    rw [String.append_assoc]
    exact ends_body (by decide) rest
  · intro fuel rest _ _
    have number := @readNat_toString levels (")".toList ++ rest) (by simp)
    rw [toList_append₃, readBody]
    simp only [expect_append, Option.bind_eq_bind, Option.bind_some, number]
    rfl

theorem toList_append₅ (a b c d e : String) (rest : List Char) :
    (a ++ b ++ c ++ d ++ e).toList ++ rest =
      a.toList ++ (b.toList ++ (c.toList ++ (d.toList ++ (e.toList ++ rest)))) := by
  simp only [String.toList_append, List.append_assoc]

theorem reads_map {first second : String} {key value : Term Label} (readsKey : Reads first key)
    (readsValue : Reads second value) :
    Reads ("map<" ++ first ++ ", " ++ second ++ ">") (.node .map [key, value]) := by
  have whole : "map<" ++ first ++ ", " ++ second ++ ">" =
      Head.map.text ++ ("<" ++ first ++ ", " ++ second ++ ">") := by
    simp only [← String.append_assoc]
    rfl
  rw [whole]
  apply reads_of_body
  · intro rest _
    simp only [String.append_assoc]
    exact ends_body (by decide) rest
  · intro fuel rest _ enough
    simp only [String.length_append] at enough
    have keyBack := readsKey.back fuel (", ".toList ++ (second.toList ++ (">".toList ++ rest)))
      (ends_text (by decide) _) (by omega)
    have valueBack := readsValue.back fuel (">".toList ++ rest) (ends_text (by decide) _) (by omega)
    rw [toList_append₅, readBody]
    simp only [expect_append, Option.bind_eq_bind, Option.bind_some, keyBack, valueBack]
    rfl

theorem reads_tupleArray {text : String} {content : Term Label} (reads : Reads text content)
    (size : ℕ) :
    Reads ("array<" ++ text ++ "; " ++ toString size ++ ">")
        (.node (.tupleArray size) [content]) := by
  have whole : "array<" ++ text ++ "; " ++ toString size ++ ">" =
      Head.array.text ++ ("<" ++ text ++ "; " ++ toString size ++ ">") := by
    simp only [← String.append_assoc]
    rfl
  rw [whole]
  apply reads_of_body
  · intro rest _
    simp only [String.append_assoc]
    exact ends_body (by decide) rest
  · intro fuel rest _ enough
    simp only [String.length_append] at enough
    have contentBack :=
      reads.back fuel ("; ".toList ++ ((toString size).toList ++ (">".toList ++ rest)))
      (ends_text (by decide) _) (by omega)
    have number := @readNat_toString size (">".toList ++ rest) (by simp)
    rw [toList_append₅, readBody]
    simp only [expect_append, Option.bind_eq_bind, Option.bind_some, contentBack, number]
    rfl

theorem reads_items {head : Head} {text : String} {terms : List (Term Label)} {label : Label}
    (reads : ReadsItems "" text terms)
    (body : ∀ fuel rest, readBody (fuel + 1) head rest = (do
      let (items, text) ← readItems fuel "" (← expect "(" rest)
      return (.node label items, text))) :
    Reads (head.text ++ ("(" ++ text ++ ")")) (.node label terms) := by
  apply reads_of_body
  · intro rest _
    rw [String.append_assoc]
    exact ends_body (by decide) rest
  · intro fuel rest _ enough
    rw [String.length_append, String.length_append] at enough
    change 1 + text.length + 1 < fuel at enough
    rw [toList_append₃, body]
    simp only [expect_append, Option.bind_eq_bind, Option.bind_some,
      reads.back fuel rest (by omega)]
    rfl

theorem reads_tuple {text : String} {terms : List (Term Label)} (reads : ReadsItems "" text terms) :
    Reads ("tuple" ++ ("(" ++ text ++ ")")) (.node .tuple terms) :=
  @reads_items .tuple text terms .tuple reads fun _ _ => rfl

theorem reads_tupleStruct {text : String} {terms : List (Term Label)}
    (reads : ReadsItems "" text terms) :
    Reads ("tuple_struct" ++ ("(" ++ text ++ ")")) (.node .tupleStruct terms) :=
  @reads_items .tupleStruct text terms .tupleStruct reads fun _ _ => rfl

theorem expect_other {mark : String} {c d : Char} {marks rest : List Char}
    (text : mark.toList = c :: marks) (other : c ≠ d) : expect mark (d :: rest) = none := by
  rw [expect, text, if_neg]
  simp [other]

theorem Separated.ends {text mark : String} (separated : Separated ", " text)
    (stops : mark.toList.head?.any (fun c => !isWordChar c) = true) (rest : List Char) :
    Ends (text.toList ++ (mark.toList ++ rest)) := by
  rcases separated with rfl | ⟨more, rfl⟩
  · exact ends_text stops rest
  · exact ends_body (by decide) _

theorem readsItems_nil (separator : String) : ReadsItems separator "" [] := by
  refine ⟨.inl rfl, fun fuel rest enough => ?_⟩
  obtain ⟨fuel, rfl⟩ : ∃ more, fuel = more + 1 := ⟨fuel - 1, by omega⟩
  have done : expect ")" ("".toList ++ (")".toList ++ rest)) = some rest := expect_append ")" rest
  rw [readItems, done]

theorem Reads.positive {text : String} {term : Term Label} (reads : Reads text term) :
    1 ≤ text.length := by
  obtain ⟨c, tail, whole, -⟩ := reads.starts
  rw [← String.length_toList, whole]
  simp

theorem readsItems_cons {separator first more : String} {term : Term Label}
    {terms : List (Term Label)} (separates : separator = "" ∨ separator = ", ")
    (reads : Reads first term) (readsMore : ReadsItems ", " more terms) :
    ReadsItems separator (separator ++ first ++ more) (term :: terms) := by
  refine ⟨.inr ⟨first ++ more, String.append_assoc⟩, fun fuel rest enough => ?_⟩
  have positive := reads.positive
  rw [String.length_append, String.length_append] at enough
  obtain ⟨fuel, rfl⟩ : ∃ more, fuel = more + 1 := ⟨fuel - 1, by omega⟩
  have further : expect ")"
      (separator.toList ++ (first.toList ++ (more.toList ++ (")".toList ++ rest)))) = none := by
    rcases separates with rfl | rfl
    · obtain ⟨c, tail, text, isWord⟩ := reads.starts
      rw [text]
      apply expect_other rfl
      rintro rfl
      cases isWord
    · exact expect_other rfl (by decide)
  have termBack := reads.back fuel (more.toList ++ (")".toList ++ rest))
    (readsMore.separated.ends (by decide) rest) (by omega)
  have itemsBack := readsMore.back fuel rest (by omega)
  rw [toList_append₃, readItems, further]
  simp only [expect_append, Option.bind_eq_bind, Option.bind_some, termBack, itemsBack]
  rfl

theorem Next.other {separator closing : String} (next : Next separator closing) (rest : List Char) :
    expect closing (separator.toList ++ rest) = none := by
  rcases next with ⟨rfl, rfl⟩ | ⟨rfl, rfl⟩ <;> exact expect_other rfl (by decide)

theorem closes_further {α : Type} (entries : List α) : closes " \x7d" entries = " \x7d" := by
  rw [closes]
  split <;> rfl

theorem readsFields_nil (separator : String) : ReadsFields separator "" [] [] := by
  refine ⟨.inl rfl, fun fuel closing rest enough _ => ?_⟩
  obtain ⟨fuel, rfl⟩ : ∃ more, fuel = more + 1 := ⟨fuel - 1, by omega⟩
  have done : expect closing ("".toList ++ (closing.toList ++ rest)) = some rest :=
    expect_append closing rest
  rw [readFields, closes, if_pos List.isEmpty_nil, done]

theorem readsFields_cons {separator first more name : String} {term : Term Label}
    {names : List String} {terms : List (Term Label)} (reads : Reads first term)
    (readsMore : ReadsFields ", " more names terms) :
    ReadsFields separator (separator ++ quote name ++ ": " ++ first ++ more) (name :: names)
      (term :: terms) := by
  constructor
  · right
    exact ⟨quote name ++ ": " ++ first ++ more, by simp only [String.append_assoc]⟩
  intro fuel closing rest enough next
  have positive := reads.positive
  simp only [String.length_append] at enough
  obtain ⟨fuel, rfl⟩ : ∃ more, fuel = more + 1 := ⟨fuel - 1, by omega⟩
  have closed : closes closing (name :: names) = closes " \x7d" names := by
    rw [closes_further]
    rfl
  have termBack := reads.back fuel (more.toList ++ ((closes " \x7d" names).toList ++ rest))
    (by rw [closes_further]; exact readsMore.separated.ends (by decide) rest) (by omega)
  have fieldsBack := readsMore.back fuel " \x7d" rest (by omega) (.inr ⟨rfl, rfl⟩)
  rw [toList_append₅, readFields, next.other, closed]
  simp only [expect_append, Option.bind_eq_bind, Option.bind_some, readQuoted_quote, termBack,
    fieldsBack]
  rfl

theorem closes_names (closing : String) (fields : List (Named Format)) :
    closes closing (fieldNames fields) = closes closing fields := by
  cases fields <;> rfl

theorem reads_struct {text : String} {names : List String} {terms : List (Term Label)}
    (reads : ReadsFields " " text names terms) :
    Reads ("struct " ++ ("\x7b" ++ text ++ closes "\x7d" names)) (.node (.struct names) terms) := by
  have whole : "struct " ++ ("\x7b" ++ text ++ closes "\x7d" names) =
      Head.struct.text ++ (" \x7b" ++ text ++ closes "\x7d" names) := by
    simp only [← String.append_assoc]
    rfl
  rw [whole]
  apply reads_of_body
  · intro rest _
    rw [String.append_assoc]
    exact ends_body (by decide) rest
  · intro fuel rest _ enough
    rw [String.length_append, String.length_append] at enough
    change 2 + text.length + _ < fuel at enough
    have back := reads.back fuel "\x7d" rest (by omega) (.inl ⟨rfl, rfl⟩)
    rw [toList_append₃, readBody]
    simp only [expect_append, Option.bind_eq_bind, Option.bind_some, back]
    rfl

theorem reads_enum {text : String} {payloads : List (UInt32 × String × Payload)}
    {terms : List (Term Label)} (reads : ReadsVariants " " text payloads terms) :
    Reads ("enum \x7b" ++ text ++ closes "\x7d" payloads) (.node (.enum payloads) terms) := by
  have whole : "enum \x7b" ++ text ++ closes "\x7d" payloads =
      Head.enum.text ++ (" \x7b" ++ text ++ closes "\x7d" payloads) := by
    simp only [← String.append_assoc]
    rfl
  rw [whole]
  apply reads_of_body
  · intro rest _
    rw [String.append_assoc]
    exact ends_body (by decide) rest
  · intro fuel rest _ enough
    rw [String.length_append, String.length_append] at enough
    change 2 + text.length + _ < fuel at enough
    have back := reads.back fuel "\x7d" rest (by omega) (.inl ⟨rfl, rfl⟩)
    rw [toList_append₃, readBody]
    simp only [expect_append, Option.bind_eq_bind, Option.bind_some, back]
    rfl

theorem expect_apart {mark other : String} {c d : Char} (i : ℕ)
    (here : mark.toList[i]? = some c) (there : other.toList[i]? = some d) (apart : c ≠ d)
    (rest : List Char) : expect mark (other.toList ++ rest) = none := by
  rw [expect, if_neg]
  rw [List.isPrefixOf_iff_prefix]
  rintro ⟨more, whole⟩
  apply apart
  have same : (mark.toList ++ more)[i]? = (other.toList ++ rest)[i]? := by rw [whole]
  rw [List.getElem?_append_left (List.getElem?_eq_some_iff.mp here).1,
    List.getElem?_append_left (List.getElem?_eq_some_iff.mp there).1, here, there] at same
  exact Option.some.inj same

theorem readsPayload_unit : ReadsPayload "" .unit [] := by
  intro fuel rest follows enough
  obtain ⟨fuel, rfl⟩ : ∃ more, fuel = more + 1 := ⟨fuel - 1, by omega⟩
  have others : expect " newtype(" rest = none ∧ expect " tuple(" rest = none ∧
      expect " struct \x7b" rest = none := by
    rcases follows with ⟨more, rfl⟩ | ⟨more, rfl⟩
    · exact ⟨expect_apart 0 rfl rfl (by decide) _, expect_apart 0 rfl rfl (by decide) _,
        expect_apart 0 rfl rfl (by decide) _⟩
    · exact ⟨expect_apart 1 rfl rfl (by decide) _, expect_apart 1 rfl rfl (by decide) _,
        expect_apart 1 rfl rfl (by decide) _⟩
  change readPayload (fuel + 1) rest = _
  rw [readPayload, others.1, others.2.1, others.2.2]

theorem readsPayload_newType {text : String} {term : Term Label} (reads : Reads text term) :
    ReadsPayload (" newtype(" ++ text ++ ")") .newType [term] := by
  intro fuel rest _ enough
  rw [String.length_append, String.length_append] at enough
  obtain ⟨fuel, rfl⟩ : ∃ more, fuel = more + 1 := ⟨fuel - 1, by omega⟩
  change 9 + text.length + 1 + 1 < fuel + 1 at enough
  have back := reads.back fuel (")".toList ++ rest) (ends_text (by decide) _) (by omega)
  rw [toList_append₃, readPayload]
  simp only [expect_append, Option.bind_eq_bind, Option.bind_some, back]
  rfl

theorem readsPayload_tuple {text : String} {terms : List (Term Label)}
    (reads : ReadsItems "" text terms) :
    ReadsPayload (" tuple" ++ ("(" ++ text ++ ")")) (.tuple terms.length) terms := by
  intro fuel rest _ enough
  have whole : " tuple" ++ ("(" ++ text ++ ")") = " tuple(" ++ text ++ ")" := by
    simp only [← String.append_assoc]
    rfl
  rw [whole] at enough ⊢
  rw [String.length_append, String.length_append] at enough
  obtain ⟨fuel, rfl⟩ : ∃ more, fuel = more + 1 := ⟨fuel - 1, by omega⟩
  change 7 + text.length + 1 + 1 < fuel + 1 at enough
  have back := reads.back fuel rest (by omega)
  have other := @expect_apart " newtype(" " tuple(" _ _ 1 rfl rfl (by decide)
    (text.toList ++ (")".toList ++ rest))
  rw [toList_append₃, readPayload, other]
  simp only [expect_append, Option.bind_eq_bind, Option.bind_some, back]
  rfl

theorem readsPayload_struct {text : String} {names : List String} {terms : List (Term Label)}
    (reads : ReadsFields " " text names terms) :
    ReadsPayload (" struct " ++ ("\x7b" ++ text ++ closes "\x7d" names)) (.struct names) terms := by
  intro fuel rest _ enough
  have whole : " struct " ++ ("\x7b" ++ text ++ closes "\x7d" names) =
      " struct \x7b" ++ text ++ closes "\x7d" names := by
    simp only [← String.append_assoc]
    rfl
  rw [whole] at enough ⊢
  rw [String.length_append, String.length_append] at enough
  obtain ⟨fuel, rfl⟩ : ∃ more, fuel = more + 1 := ⟨fuel - 1, by omega⟩
  change 9 + text.length + _ + 1 < fuel + 1 at enough
  have back := reads.back fuel "\x7d" rest (by omega) (.inl ⟨rfl, rfl⟩)
  have notNewType := @expect_apart " newtype(" " struct \x7b" _ _ 1 rfl rfl (by decide)
    (text.toList ++ ((closes "\x7d" names).toList ++ rest))
  have notTuple := @expect_apart " tuple(" " struct \x7b" _ _ 1 rfl rfl (by decide)
    (text.toList ++ ((closes "\x7d" names).toList ++ rest))
  rw [toList_append₃, readPayload, notNewType, notTuple]
  simp only [expect_append, Option.bind_eq_bind, Option.bind_some, back]
  rfl

theorem readsVariants_nil (separator : String) : ReadsVariants separator "" [] [] := by
  refine ⟨.inl rfl, fun fuel closing rest enough _ => ?_⟩
  obtain ⟨fuel, rfl⟩ : ∃ more, fuel = more + 1 := ⟨fuel - 1, by omega⟩
  have done : expect closing ("".toList ++ (closing.toList ++ rest)) = some rest :=
    expect_append closing rest
  rw [readVariants, closes, if_pos List.isEmpty_nil, done]

theorem toList_append₆ (a b c d e f : String) (rest : List Char) :
    (a ++ b ++ c ++ d ++ e ++ f).toList ++ rest =
      a.toList ++ (b.toList ++ (c.toList ++ (d.toList ++ (e.toList ++ (f.toList ++ rest))))) := by
  simp only [String.toList_append, List.append_assoc]

theorem readsVariants_cons {separator first more name : String} {index : UInt32} {payload : Payload}
    {payloads : List (UInt32 × String × Payload)} {terms others : List (Term Label)}
    (reads : ReadsPayload first payload terms)
    (readsMore : ReadsVariants ", " more payloads others) :
    ReadsVariants separator (separator ++ toString index ++ " " ++ quote name ++ first ++ more)
      ((index, name, payload) :: payloads) (terms ++ others) := by
  constructor
  · right
    exact ⟨toString index ++ " " ++ quote name ++ first ++ more,
      by simp only [String.append_assoc]⟩
  intro fuel closing rest enough next
  simp only [String.length_append] at enough
  obtain ⟨fuel, rfl⟩ : ∃ more, fuel = more + 1 := ⟨fuel - 1, by omega⟩
  have closed : closes closing ((index, name, payload) :: payloads) = closes " \x7d" payloads := by
    rw [closes_further]
    rfl
  have number := readVersion_toString index (" ".toList ++ ((quote name).toList ++ (first.toList ++
    (more.toList ++ ((closes " \x7d" payloads).toList ++ rest))))) (by simp)
  have follows : FollowsVariant (more.toList ++ ((closes " \x7d" payloads).toList ++ rest)) := by
    rcases readsMore.separated with rfl | ⟨later, rfl⟩
    · rw [closes_further]
      exact .inr ⟨rest, rfl⟩
    · rw [String.toList_append, List.append_assoc]
      exact .inl ⟨_, rfl⟩
  have one : " ".length = 1 := rfl
  have payloadBack := reads fuel _ follows (by omega)
  have variantsBack := readsMore.back fuel " \x7d" rest (by omega) (.inr ⟨rfl, rfl⟩)
  rw [toList_append₆, readVariants, next.other, closed]
  simp only [expect_append, Option.bind_eq_bind, Option.bind_some, number, readQuoted_quote,
    payloadBack, variantsBack]
  rfl

def Untraced (registry : Registry) (node : Label × List Format) : Prop :=
  node.1 = .untraced ∨ ∃ child ∈ node.2, ¬ FullyTraced registry child

theorem Untraced.not_traced {registry : Registry} {format : Format}
    (untraced : Untraced registry (registry.view format)) : ¬ FullyTraced registry format := by
  intro traced
  rcases untraced with hole | ⟨child, isChild, childUntraced⟩
  · exact traced format (.self format) hole
  · exact childUntraced (traced.child isChild)

theorem Label.ne_untraced {label : Label} (opens : label.opens = true) : label ≠ .untraced := by
  rintro rfl
  cases opens

theorem wrap_spec {opening closing : String} {inner : Except String String} {good : String → Prop}
    {bad : Prop} (yields : Yields good bad inner) :
    Yields (fun text => ∃ part, text = opening ++ part ++ closing ∧ good part) bad
      (wrap opening inner closing) :=
  yields.bind (fun part isGood => .ok ⟨part, rfl, isGood⟩) id

theorem enum_view {variants : List (UInt32 × Named VariantFormat)}
    {payloads : List (UInt32 × String × Payload)} {formats : List Format}
    (views : variantsView variants = some (payloads, formats)) :
    (ContainerFormat.enum variants).view = (.enum payloads, formats) := by
  rw [ContainerFormat.view, views]

theorem variantsView_cons (index : UInt32) (variant : Named VariantFormat)
    (variants : List (UInt32 × Named VariantFormat)) :
    variantsView ((index, variant) :: variants) =
      variant.value.view.bind fun view => (variantsView variants).bind fun views =>
        some ((index, variant.name, view.1) :: views.1, view.2 ++ views.2) := rfl

theorem closes_payloads {closing : String} {variants : List (UInt32 × Named VariantFormat)}
    {payloads : List (UInt32 × String × Payload)} {formats : List Format}
    (views : variantsView variants = some (payloads, formats)) :
    closes closing payloads = closes closing variants := by
  cases variants with
  | nil => cases views; rfl
  | cons variant variants =>
      rw [variantsView_cons] at views
      obtain ⟨view, -, views⟩ := Option.bind_eq_some_iff.mp views
      obtain ⟨rest, -, views⟩ := Option.bind_eq_some_iff.mp views
      cases views
      rfl

mutual

theorem writeFormat_spec (registry : Registry) (stack : List String) (format : Format) :
    Yields (fun text => ∃ term, Inline registry stack format term ∧ Reads text term)
      (¬ FullyTraced registry format) (writeFormat registry stack format) := by
  cases format with
  | «variable» =>
      rw [writeFormat]
      exact .error (Untraced.not_traced (.inl rfl))
  | typeName name =>
      rw [writeFormat]
      split
      · next position found =>
        refine .ok ⟨.back (position + 1), .back ?_, reads_back _⟩
        obtain ⟨inside, same, -⟩ := List.findIdx?_eq_some_iff_getElem.mp found
        rw [List.getElem?_map, List.getElem?_eq_getElem inside, beq_iff_eq.mp same]
        rfl
      · next fresh =>
        split
        · next missing =>
          refine .error (Untraced.not_traced (.inl ?_))
          rw [Registry.view, missing]
        · next container known =>
          have shows : registry.view (.typeName name) = (container.view.1, container.view.2) := by
            rw [Registry.view, known]
          apply (writeContainer_spec registry (name :: stack) container).imp
          · rintro text ⟨terms, opens, inlined, reads⟩
            refine ⟨_, Inlines.of_forall₂ shows (Label.ne_untraced opens) ?_, reads⟩
            rw [if_pos opens]
            exact inlined
          · intro untraced
            rw [← Prod.eta container.view, ← shows] at untraced
            exact untraced.not_traced
  | primitive kind =>
      rw [writeFormat]
      exact .ok ⟨_, Inlines.of_forall₂ rfl (by simp) .nil, reads_primitive kind⟩
  | option inner =>
      rw [writeFormat]
      apply (wrap_spec (writeFormat_spec registry stack inner)).imp
      · rintro _ ⟨text, rfl, term, inlined, reads⟩
        exact ⟨_, Inlines.of_forall₂ rfl (by simp) (.cons inlined .nil), reads_option reads⟩
      · exact fun untraced =>
          Untraced.not_traced (.inr ⟨inner, List.mem_singleton_self _, untraced⟩)
  | seq inner =>
      rw [writeFormat]
      apply (wrap_spec (writeFormat_spec registry stack inner)).imp
      · rintro _ ⟨text, rfl, term, inlined, reads⟩
        exact ⟨_, Inlines.of_forall₂ rfl (by simp) (.cons inlined .nil), reads_seq reads⟩
      · exact fun untraced =>
          Untraced.not_traced (.inr ⟨inner, List.mem_singleton_self _, untraced⟩)
  | map key value =>
      rw [writeFormat]
      apply (writeFormat_spec registry stack key).bind
      · rintro first ⟨keyTerm, keyInlined, readsKey⟩
        apply (writeFormat_spec registry stack value).bind
        · rintro second ⟨valueTerm, valueInlined, readsValue⟩
          exact .ok ⟨_, Inlines.of_forall₂ rfl (by simp)
            (.cons keyInlined (.cons valueInlined .nil)), reads_map readsKey readsValue⟩
        · exact fun untraced =>
            Untraced.not_traced (.inr ⟨value, by simp [Registry.view], untraced⟩)
      · exact fun untraced =>
          Untraced.not_traced (.inr ⟨key, by simp [Registry.view], untraced⟩)
  | tuple items =>
      rw [writeFormat]
      apply (writeTuple_spec registry stack items).bind
      · rintro _ ⟨text, terms, rfl, inlined, reads⟩
        exact .ok ⟨_, Inlines.of_forall₂ rfl (by simp) inlined, reads_tuple reads⟩
      · exact fun untraced => Untraced.not_traced (.inr untraced)
  | tupleArray content size =>
      rw [writeFormat]
      apply (writeFormat_spec registry stack content).bind
      · rintro text ⟨term, inlined, reads⟩
        exact .ok ⟨_, Inlines.of_forall₂ rfl (by simp) (.cons inlined .nil),
          reads_tupleArray reads size⟩
      · exact fun untraced =>
          Untraced.not_traced (.inr ⟨content, List.mem_singleton_self _, untraced⟩)
termination_by (registry.unvisited stack, sizeOf format, 0)
decreasing_by
  · exact Prod.Lex.left _ _ (Registry.unvisited_lt ‹_› ‹_›)
  all_goals decreasing_tactic

theorem writeContainer_spec (registry : Registry) (stack : List String)
    (container : ContainerFormat) :
    Yields (fun text => ∃ terms, container.view.1.opens = true ∧
        List.Forall₂ (Inline registry stack) container.view.2 terms ∧
        Reads text (.node container.view.1 terms))
      (Untraced registry container.view) (writeContainer registry stack container) := by
  cases container with
  | unitStruct =>
      rw [writeContainer]
      exact .ok ⟨[], rfl, .nil, reads_unitStruct⟩
  | newTypeStruct inner =>
      rw [writeContainer]
      apply (wrap_spec (writeFormat_spec registry stack inner)).imp
      · rintro _ ⟨text, rfl, term, inlined, reads⟩
        exact ⟨_, rfl, .cons inlined .nil, reads_newTypeStruct reads⟩
      · exact fun untraced => .inr ⟨inner, List.mem_singleton_self _, untraced⟩
  | tupleStruct items =>
      rw [writeContainer]
      apply (writeTuple_spec registry stack items).bind
      · rintro _ ⟨text, terms, rfl, inlined, reads⟩
        exact .ok ⟨terms, rfl, inlined, reads_tupleStruct reads⟩
      · exact .inr
  | struct fields =>
      rw [writeContainer]
      apply (writeFields_spec registry stack fields).bind
      · rintro _ ⟨text, terms, rfl, inlined, reads⟩
        exact .ok ⟨terms, rfl, inlined, reads_struct reads⟩
      · exact .inr
  | enum variants =>
      rw [writeContainer]
      apply (writeVariants_spec registry stack " " variants).bind
      · rintro text ⟨payloads, formats, terms, views, inlined, reads⟩
        rw [enum_view views]
        refine .ok ⟨terms, rfl, inlined, ?_⟩
        have written := reads_enum reads
        rwa [closes_payloads views] at written
      · intro untraced
        cases views : variantsView variants with
        | none => exact .inl (by rw [ContainerFormat.view, views])
        | some view =>
            right
            rw [enum_view views]
            exact untraced _ _ views
termination_by (registry.unvisited stack, sizeOf container, 0)

theorem writeVariants_spec (registry : Registry) (stack : List String) (separator : String)
    (variants : List (UInt32 × Named VariantFormat)) :
    Yields (fun text => ∃ payloads formats terms,
      variantsView variants = some (payloads, formats) ∧
        List.Forall₂ (Inline registry stack) formats terms ∧
        ReadsVariants separator text payloads terms)
      (∀ payloads formats, variantsView variants = some (payloads, formats) →
        ∃ child ∈ formats, ¬ FullyTraced registry child)
      (writeVariants registry stack separator variants) := by
  cases variants with
  | nil =>
      rw [writeVariants]
      exact .ok ⟨[], [], [], rfl, .nil, readsVariants_nil separator⟩
  | cons variant variants =>
      obtain ⟨index, variant⟩ := variant
      rw [writeVariants, variantsView_cons]
      apply (writePayload_spec registry stack variant).bind
      · rintro first ⟨payload, formats, terms, view, inlined, reads⟩
        apply (writeVariants_spec registry stack ", " variants).bind
        · rintro more ⟨payloads, others, otherTerms, views, othersInlined, readsMore⟩
          refine .ok ⟨_, _, _, ?_, List.rel_append inlined othersInlined,
            readsVariants_cons reads readsMore⟩
          rw [view, views]
          rfl
        · intro untraced payloads formats views
          obtain ⟨_, -, views⟩ := Option.bind_eq_some_iff.mp views
          obtain ⟨rest, further, views⟩ := Option.bind_eq_some_iff.mp views
          cases views
          obtain ⟨child, isChild, childUntraced⟩ := untraced rest.1 rest.2 further
          exact ⟨child, List.mem_append_right _ isChild, childUntraced⟩
      · intro untraced payloads formats views
        obtain ⟨here, view, views⟩ := Option.bind_eq_some_iff.mp views
        obtain ⟨rest, -, views⟩ := Option.bind_eq_some_iff.mp views
        cases views
        obtain ⟨child, isChild, childUntraced⟩ := untraced here.1 here.2 view
        exact ⟨child, List.mem_append_left _ isChild, childUntraced⟩
termination_by (registry.unvisited stack, sizeOf variants, 0)

theorem writePayload_spec (registry : Registry) (stack : List String)
    (variant : Named VariantFormat) :
    Yields (fun text => ∃ payload formats terms, variant.value.view = some (payload, formats) ∧
        List.Forall₂ (Inline registry stack) formats terms ∧ ReadsPayload text payload terms)
      (∀ payload formats, variant.value.view = some (payload, formats) →
        ∃ child ∈ formats, ¬ FullyTraced registry child)
      (writePayload registry stack variant) := by
  obtain ⟨name, value⟩ := variant
  cases value with
  | «variable» =>
      rw [writePayload]
      refine .error fun payload formats view => ?_
      cases view
  | unit =>
      rw [writePayload]
      exact .ok ⟨.unit, [], [], rfl, .nil, readsPayload_unit⟩
  | newType inner =>
      rw [writePayload]
      apply (wrap_spec (writeFormat_spec registry stack inner)).imp
      · rintro _ ⟨text, rfl, term, inlined, reads⟩
        exact ⟨.newType, [inner], _, rfl, .cons inlined .nil, readsPayload_newType reads⟩
      · intro untraced payload formats view
        cases view
        exact ⟨inner, List.mem_singleton_self _, untraced⟩
  | tuple items =>
      rw [writePayload]
      apply (writeTuple_spec registry stack items).bind
      · rintro _ ⟨text, terms, rfl, inlined, reads⟩
        refine .ok ⟨.tuple items.length, items, terms, rfl, inlined, ?_⟩
        rw [inlined.length_eq]
        exact readsPayload_tuple reads
      · intro untraced payload formats view
        cases view
        exact untraced
  | struct fields =>
      rw [writePayload]
      apply (writeFields_spec registry stack fields).bind
      · rintro _ ⟨text, terms, rfl, inlined, reads⟩
        exact .ok ⟨.struct (fieldNames fields), fieldFormats fields, terms, rfl, inlined,
          readsPayload_struct reads⟩
      · intro untraced payload formats view
        cases view
        exact untraced
termination_by (registry.unvisited stack, sizeOf variant, 0)

theorem writeTuple_spec (registry : Registry) (stack : List String) (items : List Format) :
    Yields (fun text => ∃ body terms, text = "(" ++ body ++ ")" ∧
        List.Forall₂ (Inline registry stack) items terms ∧ ReadsItems "" body terms)
      (∃ child ∈ items, ¬ FullyTraced registry child) (writeTuple registry stack items) := by
  rw [writeTuple]
  apply (writeItems_spec registry stack "" (.inl rfl) items).bind
  · rintro body ⟨terms, inlined, reads⟩
    exact .ok ⟨body, terms, rfl, inlined, reads⟩
  · exact id
termination_by (registry.unvisited stack, sizeOf items, 1)

theorem writeItems_spec (registry : Registry) (stack : List String) (separator : String)
    (separates : separator = "" ∨ separator = ", ") (items : List Format) :
    Yields (fun text => ∃ terms, List.Forall₂ (Inline registry stack) items terms ∧
        ReadsItems separator text terms)
      (∃ child ∈ items, ¬ FullyTraced registry child)
          (writeItems registry stack separator items) := by
  cases items with
  | nil =>
      rw [writeItems]
      exact .ok ⟨[], .nil, readsItems_nil separator⟩
  | cons item items =>
      rw [writeItems]
      apply (writeFormat_spec registry stack item).bind
      · rintro first ⟨term, inlined, reads⟩
        apply (writeItems_spec registry stack ", " (.inr rfl) items).bind
        · rintro more ⟨terms, allInlined, readsMore⟩
          exact .ok ⟨_, .cons inlined allInlined, readsItems_cons separates reads readsMore⟩
        · rintro ⟨child, isChild, untraced⟩
          exact ⟨child, List.mem_cons_of_mem _ isChild, untraced⟩
      · exact fun untraced => ⟨item, List.mem_cons_self, untraced⟩
termination_by (registry.unvisited stack, sizeOf items, 0)

theorem writeFields_spec (registry : Registry) (stack : List String)
    (fields : List (Named Format)) :
    Yields (fun text => ∃ body terms,
      text = "\x7b" ++ body ++ closes "\x7d" (fieldNames fields) ∧
        List.Forall₂ (Inline registry stack) (fieldFormats fields) terms ∧
        ReadsFields " " body (fieldNames fields) terms)
      (∃ child ∈ fieldFormats fields, ¬ FullyTraced registry child)
          (writeFields registry stack fields) := by
  rw [writeFields]
  apply (writeEach_spec registry stack " " fields).bind
  · rintro body ⟨terms, inlined, reads⟩
    rw [closes_names]
    exact .ok ⟨body, terms, rfl, inlined, reads⟩
  · exact id
termination_by (registry.unvisited stack, sizeOf fields, 1)

theorem writeEach_spec (registry : Registry) (stack : List String) (separator : String)
    (fields : List (Named Format)) :
    Yields (fun text =>
      ∃ terms, List.Forall₂ (Inline registry stack) (fieldFormats fields) terms ∧
        ReadsFields separator text (fieldNames fields) terms)
      (∃ child ∈ fieldFormats fields, ¬ FullyTraced registry child)
      (writeEach registry stack separator fields) := by
  cases fields with
  | nil =>
      rw [writeEach]
      exact .ok ⟨[], .nil, readsFields_nil separator⟩
  | cons field fields =>
      obtain ⟨name, value⟩ := field
      rw [writeEach]
      apply (writeFormat_spec registry stack value).bind
      · rintro first ⟨term, inlined, reads⟩
        apply (writeEach_spec registry stack ", " fields).bind
        · rintro more ⟨terms, allInlined, readsMore⟩
          exact .ok ⟨_, .cons inlined allInlined, readsFields_cons reads readsMore⟩
        · rintro ⟨child, isChild, untraced⟩
          exact ⟨child, List.mem_cons_of_mem _ isChild, untraced⟩
      · exact fun untraced => ⟨value, List.mem_cons_self, untraced⟩
termination_by (registry.unvisited stack, sizeOf fields, 0)

end

end AimDb.Contracts.Shape
