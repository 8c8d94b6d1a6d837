import AimDb.Contracts.Lock
import AimDb.Contracts.Lock.Generated
import AimDb.Unrolling.Terms

/-!
# The shape text

A traced format is written with its containers inline and without their names.
A container that contains itself is written as the number of levels up to it, so
the names open above a part decide what is written.
-/

namespace AimDb.Contracts.Shape

structure Named (α : Type) where
  name : String
  value : α

inductive Primitive where
  | unit | bool | i8 | i16 | i32 | i64 | i128 | u8 | u16 | u32 | u64 | u128 | f32 | f64 | char
  | str | bytes
  deriving DecidableEq, Repr

inductive Format where
  /-- A part the tracer left open. -/
  | variable
  | typeName (name : String)
  | primitive (primitive : Primitive)
  | option (inner : Format)
  | seq (inner : Format)
  | map (key value : Format)
  | tuple (items : List Format)
  | tupleArray (content : Format) (size : ℕ)

inductive VariantFormat where
  | variable
  | unit
  | newType (inner : Format)
  | tuple (items : List Format)
  | struct (fields : List (Named Format))

inductive ContainerFormat where
  | unitStruct
  | newTypeStruct (inner : Format)
  | tupleStruct (items : List Format)
  | struct (fields : List (Named Format))
  | enum (variants : List (UInt32 × Named VariantFormat))

abbrev Registry := List (String × ContainerFormat)

def Registry.get (registry : Registry) (name : String) : Option ContainerFormat :=
  registry.lookup name

def Registry.unvisited (registry : Registry) (stack : List String) : ℕ :=
  registry.countP fun entry => !stack.contains entry.1

theorem Registry.unvisited_lt {registry : Registry} {stack : List String} {name : String}
    {container : ContainerFormat} (fresh : stack.findIdx? (· == name) = none)
    (known : registry.get name = some container) :
    registry.unvisited (name :: stack) < registry.unvisited stack := by
  obtain ⟨before, after, rfl, -⟩ := List.lookup_eq_some_iff.mp known
  have fewer : ∀ entries : Registry,
      entries.unvisited (name :: stack) ≤ entries.unvisited stack := by
    intro entries
    apply List.countP_mono_left
    intro entry _ visited
    rw [Bool.not_eq_true', List.contains_cons, Bool.or_eq_false_iff] at visited
    rw [visited.2, Bool.not_false]
  have closed : (!stack.contains name) = true := by
    rw [Bool.not_eq_true', Bool.eq_false_iff, ne_eq, List.contains_iff_mem]
    intro opened
    have other := List.findIdx?_eq_none_iff.mp fresh name opened
    simp at other
  have first := fewer before
  have last := fewer after
  simp only [unvisited, List.countP_append, List.countP_cons, List.contains_cons, beq_self_eq_true,
    Bool.true_or, closed] at first last ⊢
  simp only [Bool.not_true, Bool.false_eq_true, if_false, if_true]
  omega

def Primitive.text : Primitive → String
  | .unit => "unit"
  | .bool => "bool"
  | .i8 => "i8"
  | .i16 => "i16"
  | .i32 => "i32"
  | .i64 => "i64"
  | .i128 => "i128"
  | .u8 => "u8"
  | .u16 => "u16"
  | .u32 => "u32"
  | .u64 => "u64"
  | .u128 => "u128"
  | .f32 => "f32"
  | .f64 => "f64"
  | .char => "char"
  | .str => "str"
  | .bytes => "bytes"

def wrap (opening : String) (inner : Except String String) (closing : String) :
    Except String String := do
  return opening ++ (← inner) ++ closing

mutual

/-- The stack has the innermost open container first; `rec` counts from it. -/
def writeFormat (registry : Registry) (stack : List String) : Format → Except String String
  | .variable => .error "a part was left untraced"
  | .typeName name =>
      match _ : stack.findIdx? (· == name) with
      | some position => .ok ("rec(" ++ toString (position + 1) ++ ")")
      | none =>
          match _ : registry.get name with
          | none => .error ("`" ++ name ++ "` is missing from the trace")
          | some container => writeContainer registry (name :: stack) container
  | .primitive primitive => .ok primitive.text
  | .option inner => wrap "option<" (writeFormat registry stack inner) ">"
  | .seq inner => wrap "seq<" (writeFormat registry stack inner) ">"
  | .map key value => do
      let key ← writeFormat registry stack key
      let value ← writeFormat registry stack value
      return "map<" ++ key ++ ", " ++ value ++ ">"
  | .tuple items => do return "tuple" ++ (← writeTuple registry stack items)
  | .tupleArray content size => do
      return "array<" ++ (← writeFormat registry stack content) ++ "; " ++ toString size ++ ">"
termination_by format => (registry.unvisited stack, sizeOf format, 0)
decreasing_by
  · exact Prod.Lex.left _ _ (Registry.unvisited_lt ‹_› ‹_›)
  all_goals decreasing_tactic

def writeContainer (registry : Registry) (stack : List String) :
    ContainerFormat → Except String String
  | .unitStruct => .ok "unit_struct"
  | .newTypeStruct inner => wrap "newtype(" (writeFormat registry stack inner) ")"
  | .tupleStruct items => do return "tuple_struct" ++ (← writeTuple registry stack items)
  | .struct fields => do return "struct " ++ (← writeFields registry stack fields)
  | .enum variants => do
      let text ← writeVariants registry stack " " variants
      return "enum \x7b" ++ text ++ if variants.isEmpty then "\x7d" else " \x7d"
termination_by container => (registry.unvisited stack, sizeOf container, 0)

/-- The loop over the variants; the separator is that of the first one left. -/
def writeVariants (registry : Registry) (stack : List String) (separator : String) :
    List (UInt32 × Named VariantFormat) → Except String String
  | [] => .ok ""
  | (index, variant) :: variants => do
      let payload ← writePayload registry stack variant
      let rest ← writeVariants registry stack ", " variants
      return separator ++ toString index ++ " " ++ quote variant.name ++ payload ++ rest
termination_by variants => (registry.unvisited stack, sizeOf variants, 0)

/-- The payload kind is spelled out: a newtype variant and a one-element tuple
variant are sent differently. -/
def writePayload (registry : Registry) (stack : List String) :
    Named VariantFormat → Except String String
  | ⟨name, .variable⟩ => .error ("variant `" ++ name ++ "` was left untraced")
  | ⟨_, .unit⟩ => .ok ""
  | ⟨_, .newType inner⟩ => wrap " newtype(" (writeFormat registry stack inner) ")"
  | ⟨_, .tuple items⟩ => do return " tuple" ++ (← writeTuple registry stack items)
  | ⟨_, .struct fields⟩ => do return " struct " ++ (← writeFields registry stack fields)
termination_by variant => (registry.unvisited stack, sizeOf variant, 0)

/-- `(A, B)` -/
def writeTuple (registry : Registry) (stack : List String) (items : List Format) :
    Except String String := do
  return "(" ++ (← writeItems registry stack "" items) ++ ")"
termination_by (registry.unvisited stack, sizeOf items, 1)

def writeItems (registry : Registry) (stack : List String) (separator : String) :
    List Format → Except String String
  | [] => .ok ""
  | item :: items => do
      let text ← writeFormat registry stack item
      let rest ← writeItems registry stack ", " items
      return separator ++ text ++ rest
termination_by items => (registry.unvisited stack, sizeOf items, 0)

/-- `{ "a": T, "b": U }`, or `{}` -/
def writeFields (registry : Registry) (stack : List String) (fields : List (Named Format)) :
    Except String String := do
  let text ← writeEach registry stack " " fields
  return "\x7b" ++ text ++ if fields.isEmpty then "\x7d" else " \x7d"
termination_by (registry.unvisited stack, sizeOf fields, 1)

def writeEach (registry : Registry) (stack : List String) (separator : String) :
    List (Named Format) → Except String String
  | [] => .ok ""
  | ⟨name, value⟩ :: fields => do
      let text ← writeFormat registry stack value
      let rest ← writeEach registry stack ", " fields
      return separator ++ quote name ++ ": " ++ text ++ rest
termination_by fields => (registry.unvisited stack, sizeOf fields, 0)

end

def render (format : Format) (registry : Registry) : Except String String :=
  writeFormat registry [] format

open Unrolling

inductive Payload where
  | unit
  | newType
  | tuple (size : ℕ)
  | struct (names : List String)

inductive Label where
  | untraced
  | primitive (primitive : Primitive)
  | option
  | seq
  | map
  | tuple
  | tupleArray (size : ℕ)
  | unitStruct
  | newTypeStruct
  | tupleStruct
  | struct (names : List String)
  | enum (variants : List (UInt32 × String × Payload))

def Label.opens : Label → Bool
  | .unitStruct | .newTypeStruct | .tupleStruct | .struct _ | .enum _ => true
  | _ => false

def fieldNames (fields : List (Named Format)) : List String := fields.map Named.name

def fieldFormats (fields : List (Named Format)) : List Format := fields.map Named.value

def VariantFormat.view : VariantFormat → Option (Payload × List Format)
  | .variable => none
  | .unit => some (.unit, [])
  | .newType inner => some (.newType, [inner])
  | .tuple items => some (.tuple items.length, items)
  | .struct fields => some (.struct (fieldNames fields), fieldFormats fields)

def variantsView : List (UInt32 × Named VariantFormat) →
    Option (List (UInt32 × String × Payload) × List Format)
  | [] => some ([], [])
  | (index, variant) :: variants => do
      let (payload, formats) ← variant.value.view
      let (payloads, rest) ← variantsView variants
      return ((index, variant.name, payload) :: payloads, formats ++ rest)

def ContainerFormat.view : ContainerFormat → Label × List Format
  | .unitStruct => (.unitStruct, [])
  | .newTypeStruct inner => (.newTypeStruct, [inner])
  | .tupleStruct items => (.tupleStruct, items)
  | .struct fields => (.struct (fieldNames fields), fieldFormats fields)
  | .enum variants =>
      match variantsView variants with
      | none => (.untraced, [])
      | some (payloads, formats) => (.enum payloads, formats)

def Registry.view (registry : Registry) : Format → Label × List Format
  | .variable => (.untraced, [])
  | .typeName name =>
      match registry.get name with
      | none => (.untraced, [])
      | some container => container.view
  | .primitive primitive => (.primitive primitive, [])
  | .option inner => (.option, [inner])
  | .seq inner => (.seq, [inner])
  | .map key value => (.map, [key, value])
  | .tuple items => (.tuple, items)
  | .tupleArray content size => (.tupleArray size, [content])

/-- The wire shape of a format: what it is, part by part, at any depth. -/
noncomputable def unrolling (registry : Registry) (format : Format) : Unrolled Label :=
  unroll registry.view format

def FullyTraced (registry : Registry) (format : Format) : Prop :=
  Whole registry.view .untraced format

def isWordChar (c : Char) : Bool := c.isAlphanum || c == '_'

/-- What the parts of a text start with. -/
inductive Head where
  | primitive (primitive : Primitive)
  | option | seq | map | tuple | array | unitStruct | newtype | tupleStruct | struct | enum | back
  deriving DecidableEq

def Head.text : Head → String
  | .primitive kind => kind.text
  | .option => "option"
  | .seq => "seq"
  | .map => "map"
  | .tuple => "tuple"
  | .array => "array"
  | .unitStruct => "unit_struct"
  | .newtype => "newtype"
  | .tupleStruct => "tuple_struct"
  | .struct => "struct"
  | .enum => "enum"
  | .back => "rec"

def Head.all : List Head :=
  ([.unit, .bool, .i8, .i16, .i32, .i64, .i128, .u8, .u16, .u32, .u64, .u128, .f32, .f64, .char,
    .str, .bytes] : List Primitive).map Head.primitive ++
  [.option, .seq, .map, .tuple, .array, .unitStruct, .newtype, .tupleStruct, .struct, .enum, .back]

def readHead (text : List Char) : Option (Head × List Char) :=
  (Head.all.find? fun head => head.text.toList == text.takeWhile isWordChar).map fun head =>
    (head, text.dropWhile isWordChar)

def Ends (rest : List Char) : Prop := ∀ c ∈ rest.head?, isWordChar c = false

theorem all_isWordChar (head : Head) : head.text.toList.all isWordChar = true := by
  rcases head with kind | _
  · cases kind <;> decide
  all_goals decide

theorem isWordChar_text (head : Head) : ∀ c ∈ head.text.toList, isWordChar c = true :=
  List.all_eq_true.mp (all_isWordChar head)

theorem find?_text (head : Head) :
    Head.all.find? (fun other => other.text.toList == head.text.toList) = some head := by
  rcases head with kind | _
  · cases kind <;> decide
  all_goals decide

theorem readHead_text (head : Head) {rest : List Char} (ends : Ends rest) :
    readHead (head.text.toList ++ rest) = some (head, rest) := by
  obtain ⟨word, behind⟩ := span_append (isWordChar_text head) ends
  rw [readHead, word, behind, find?_text]
  rfl

def readNat (text : List Char) : Option (ℕ × List Char) :=
  let digits := text.takeWhile (·.isDigit)
  if digits = [] then none else some (Nat.ofDigitChars 10 digits 0, text.dropWhile (·.isDigit))

theorem readNat_toString (n : ℕ) {rest : List Char}
    (ends : ∀ c ∈ rest.head?, c.isDigit = false) :
    readNat ((toString n).toList ++ rest) = some (n, rest) := by
  have text : (toString n).toList = Nat.toDigits 10 n := Nat.toList_repr
  have all : ∀ c ∈ Nat.toDigits 10 n, c.isDigit = true :=
    fun c mem => Nat.isDigit_of_mem_toDigits (by omega) (by omega) mem
  obtain ⟨digits, behind⟩ := span_append all ends
  rw [readNat, text, digits, behind, if_neg Nat.toDigits_ne_nil, Nat.ofDigitChars_ten_toDigits]

mutual

def readTerm : ℕ → List Char → Option (Term Label × List Char)
  | 0, _ => none
  | fuel + 1, text => do
      let (head, text) ← readHead text
      readBody fuel head text

/-- What a part goes on with after its first word. -/
def readBody : ℕ → Head → List Char → Option (Term Label × List Char)
  | 0, _, _ => none
  | _ + 1, .primitive kind, text => some (.node (.primitive kind) [], text)
  | fuel + 1, .option, text => do
      let (inner, text) ← readTerm fuel (← expect "<" text)
      return (.node .option [inner], ← expect ">" text)
  | fuel + 1, .seq, text => do
      let (inner, text) ← readTerm fuel (← expect "<" text)
      return (.node .seq [inner], ← expect ">" text)
  | fuel + 1, .map, text => do
      let (key, text) ← readTerm fuel (← expect "<" text)
      let (value, text) ← readTerm fuel (← expect ", " text)
      return (.node .map [key, value], ← expect ">" text)
  | fuel + 1, .tuple, text => do
      let (items, text) ← readItems fuel "" (← expect "(" text)
      return (.node .tuple items, text)
  | fuel + 1, .array, text => do
      let (content, text) ← readTerm fuel (← expect "<" text)
      let (size, text) ← readNat (← expect "; " text)
      return (.node (.tupleArray size) [content], ← expect ">" text)
  | _ + 1, .unitStruct, text => some (.node .unitStruct [], text)
  | fuel + 1, .newtype, text => do
      let (inner, text) ← readTerm fuel (← expect "(" text)
      return (.node .newTypeStruct [inner], ← expect ")" text)
  | fuel + 1, .tupleStruct, text => do
      let (items, text) ← readItems fuel "" (← expect "(" text)
      return (.node .tupleStruct items, text)
  | fuel + 1, .struct, text => do
      let (names, terms, text) ← readFields fuel " " "\x7d" (← expect " \x7b" text)
      return (.node (.struct names) terms, text)
  | fuel + 1, .enum, text => do
      let (variants, terms, text) ← readVariants fuel " " "\x7d" (← expect " \x7b" text)
      return (.node (.enum variants) terms, text)
  | _ + 1, .back, text => do
      let (levels, text) ← readNat (← expect "(" text)
      return (.back levels, ← expect ")" text)

def readItems : ℕ → String → List Char → Option (List (Term Label) × List Char)
  | 0, _, _ => none
  | fuel + 1, separator, text =>
      match expect ")" text with
      | some rest => some ([], rest)
      | none => do
          let (item, text) ← readTerm fuel (← expect separator text)
          let (items, text) ← readItems fuel ", " text
          return (item :: items, text)

def readFields : ℕ → String → String → List Char →
    Option (List String × List (Term Label) × List Char)
  | 0, _, _, _ => none
  | fuel + 1, separator, closing, text =>
      match expect closing text with
      | some rest => some ([], [], rest)
      | none => do
          let (name, text) ← readQuoted (← expect separator text)
          let (term, text) ← readTerm fuel (← expect ": " text)
          let (names, terms, text) ← readFields fuel ", " " \x7d" text
          return (name :: names, term :: terms, text)

def readVariants : ℕ → String → String → List Char →
    Option (List (UInt32 × String × Payload) × List (Term Label) × List Char)
  | 0, _, _, _ => none
  | fuel + 1, separator, closing, text =>
      match expect closing text with
      | some rest => some ([], [], rest)
      | none => do
          let (index, text) ← readVersion (← expect separator text)
          let (name, text) ← readQuoted (← expect " " text)
          let (payload, formats, text) ← readPayload fuel text
          let (variants, terms, text) ← readVariants fuel ", " " \x7d" text
          return ((index, name, payload) :: variants, formats ++ terms, text)

def readPayload : ℕ → List Char → Option (Payload × List (Term Label) × List Char)
  | 0, _ => none
  | fuel + 1, text =>
      match expect " newtype(" text, expect " tuple(" text, expect " struct \x7b" text with
      | some text, _, _ => do
          let (inner, text) ← readTerm fuel text
          return (.newType, [inner], ← expect ")" text)
      | none, some text, _ => do
          let (items, text) ← readItems fuel "" text
          return (.tuple items.length, items, text)
      | none, none, some text => do
          let (names, terms, text) ← readFields fuel " " "\x7d" text
          return (.struct names, terms, text)
      | none, none, none => some (.unit, [], text)

end

end AimDb.Contracts.Shape
