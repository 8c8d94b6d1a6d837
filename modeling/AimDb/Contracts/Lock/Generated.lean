import AimDb.Contracts.Lock.History

/-!
# Reading the generated form back

A reader of the TOML that `render` writes: what the check assumes of the real
reader can be had.
-/

namespace AimDb.Contracts

def hexValue (c : Char) : ℕ := if c.isDigit then c.toNat - 48 else c.toNat - 55

def readHex4 (a b c d : Char) : ℕ :=
  hexValue a * 4096 + hexValue b * 256 + hexValue c * 16 + hexValue d

/-- The inside of a basic string, up to its closing quote. -/
def unquote : List Char → Option (List Char × List Char)
  | [] => none
  | '"' :: rest => some ([], rest)
  | '\\' :: 'u' :: a :: b :: c :: d :: rest =>
      (unquote rest).map fun read => (Char.ofNat (readHex4 a b c d) :: read.1, read.2)
  | '\\' :: c :: rest => (unquote rest).map fun read => (c :: read.1, read.2)
  | c :: rest => (unquote rest).map fun read => (c :: read.1, read.2)

theorem readHex4_control : ∀ n < 160, readHex4 (upperHexDigit (n / 4096 % 16))
    (upperHexDigit (n / 256 % 16)) (upperHexDigit (n / 16 % 16)) (upperHexDigit (n % 16)) = n := by
  decide +kernel

theorem unquote_quoteChar (c : Char) (rest : List Char) :
    unquote (quoteChar c ++ rest) = (unquote rest).map fun read => (c :: read.1, read.2) := by
  rw [quoteChar]
  split
  · next isQuote =>
    rw [isQuote]
    rfl
  · next notQuote =>
    split
    · next isBackslash =>
      rw [isBackslash]
      rfl
    · next notBackslash =>
      split
      · next control =>
        have small : c.toNat < 160 := by
          simp only [isControl, Bool.or_eq_true, Bool.and_eq_true, decide_eq_true_eq] at control
          omega
        simp [unquote, upperHex4, readHex4_control _ small, Char.ofNat_toNat]
      · simp [unquote, notBackslash]

theorem unquote_quoted (chars rest : List Char) :
    unquote (chars.flatMap quoteChar ++ '"' :: rest) = some (chars, rest) := by
  induction chars with
  | nil => rfl
  | cons c chars inductionHypothesis =>
      rw [List.flatMap_cons, List.append_assoc, unquote_quoteChar, inductionHypothesis]
      rfl

def readQuoted (chars : List Char) : Option (String × List Char) :=
  match chars with
  | '"' :: rest => (unquote rest).map fun read => (String.ofList read.1, read.2)
  | _ => none

theorem readQuoted_quote (s : String) (rest : List Char) :
    readQuoted ((quote s).toList ++ rest) = some (s, rest) := by
  rw [quote, String.toList_ofList, List.cons_append, List.append_assoc, List.singleton_append,
    readQuoted, unquote_quoted]
  simp

theorem span_append {good : Char → Bool} {word rest : List Char}
    (all : ∀ c ∈ word, good c = true) (ends : ∀ c ∈ rest.head?, good c = false) :
    (word ++ rest).takeWhile good = word ∧ (word ++ rest).dropWhile good = rest := by
  rw [List.takeWhile_append_of_pos all, List.dropWhile_append_of_pos all]
  cases rest with
  | nil => simp
  | cons c rest => simp [ends c rfl]

def readVersion (chars : List Char) : Option (UInt32 × List Char) :=
  let digits := chars.takeWhile (·.isDigit)
  if digits = [] then none
  else some (UInt32.ofNat (Nat.ofDigitChars 10 digits 0), chars.dropWhile (·.isDigit))

theorem readVersion_toString (version : UInt32) (rest : List Char)
    (ends : ∀ c ∈ rest.head?, c.isDigit = false) :
    readVersion ((toString version).toList ++ rest) = some (version, rest) := by
  have text : (toString version).toList = Nat.toDigits 10 version.toNat := Nat.toList_repr
  have digits : ∀ c ∈ Nat.toDigits 10 version.toNat, c.isDigit = true :=
    fun c mem => Nat.isDigit_of_mem_toDigits (by omega) (by omega) mem
  obtain ⟨first, behind⟩ := span_append digits ends
  rw [readVersion, text, first, behind, if_neg Nat.toDigits_ne_nil, Nat.ofDigitChars_ten_toDigits,
    UInt32.ofNat_toNat]

def expect (text : String) (chars : List Char) : Option (List Char) :=
  if text.toList.isPrefixOf chars then some (chars.drop text.toList.length) else none

theorem expect_append (text : String) (rest : List Char) :
    expect text (text.toList ++ rest) = some rest := by
  rw [expect, if_pos (List.isPrefixOf_iff_prefix.mpr (List.prefix_append _ _)), List.drop_left]

def readEntry (chars : List Char) : Option (Entry × List Char) := do
  let chars ← expect "\n[[contract]]\nname = " chars
  let (name, chars) ← readQuoted chars
  let chars ← expect "\nversion = " chars
  let (version, chars) ← readVersion chars
  let chars ← expect "\nshape = " chars
  let (shape, chars) ← readQuoted chars
  let chars ← expect "\n" chars
  return (⟨name, version, shape⟩, chars)

/-- The parts of a rendered entry, with its literals left abstract. -/
theorem toList_parts (a b c d e f g : String) (rest : List Char) :
    (a ++ b ++ c ++ d ++ e ++ f ++ g).toList ++ rest = a.toList ++ (b.toList ++ (c.toList ++
      (d.toList ++ (e.toList ++ (f.toList ++ (g.toList ++ rest)))))) := by
  simp only [String.toList_append, List.append_assoc]

theorem readEntry_render (entry : Entry) (rest : List Char) :
    readEntry (entry.render.toList ++ rest) = some (entry, rest) := by
  have version := readVersion_toString entry.version
    ("\nshape = ".toList ++ ((quote entry.shape).toList ++ ("\n".toList ++ rest))) (by simp)
  unfold Entry.render
  rw [toList_parts, readEntry]
  simp only [expect_append, readQuoted_quote, version, Option.bind_eq_bind, Option.bind_some,
    Option.pure_def]

theorem toList_render_ne_nil (entry : Entry) : entry.render.toList ≠ [] := by
  unfold Entry.render
  intro nothing
  have parts := toList_parts "\n[[contract]]\nname = " (quote entry.name) "\nversion = "
    (toString entry.version) "\nshape = " (quote entry.shape) "\n" []
  rw [nothing] at parts
  simp at parts

/-- Entries up to the end of the text; the fuel bounds their number. -/
def readEntries : ℕ → List Char → Option (List Entry)
  | _, [] => some []
  | 0, _ :: _ => none
  | fuel + 1, c :: chars => do
      let (entry, rest) ← readEntry (c :: chars)
      let entries ← readEntries fuel rest
      return entry :: entries

theorem readEntries_render (entries : List Entry) (fuel : ℕ) (enough : entries.length ≤ fuel) :
    readEntries fuel ((entries.map Entry.render).flatMap String.toList) = some entries := by
  induction entries generalizing fuel with
  | nil =>
      cases fuel <;> rfl
  | cons entry rest inductionHypothesis =>
      cases fuel with
      | zero => simp at enough
      | succ fuel =>
          have read := readEntry_render entry ((rest.map Entry.render).flatMap String.toList)
          have more := inductionHypothesis fuel (by simpa using enough)
          rw [List.map_cons, List.flatMap_cons]
          generalize text : entry.render.toList ++ (rest.map Entry.render).flatMap String.toList
            = chars at read
          cases chars with
          | nil =>
              -- a rendered entry starts with a line break
              exact absurd (List.append_eq_nil_iff.mp text).1 (toList_render_ne_nil entry)
          | cons c chars =>
              rw [readEntries, read]
              simp [more]

def readLock (chars : List Char) : Option Lock := do
  let chars ← expect header chars
  let chars ← expect "version = " chars
  let (version, chars) ← readVersion chars
  let chars ← expect "\n" chars
  let entries ← readEntries chars.length chars
  return ⟨version, entries⟩

theorem length_le_flatMap_render (entries : List Entry) :
    entries.length ≤ ((entries.map Entry.render).flatMap String.toList).length := by
  induction entries with
  | nil => rfl
  | cons entry rest inductionHypothesis =>
      have positive := List.length_pos_of_ne_nil (toList_render_ne_nil entry)
      simp only [List.map_cons, List.flatMap_cons, List.length_append, List.length_cons]
      omega

theorem toList_lines (a b c d : String) (parts : List String) :
    (a ++ b ++ c ++ d ++ String.join parts).toList =
      a.toList ++ (b.toList ++ (c.toList ++ (d.toList ++ parts.flatMap String.toList))) := by
  simp only [String.toList_append, String.toList_join, List.append_assoc]

theorem readLock_render (entries : List Entry) :
    readLock (render entries).toList = some ⟨formatVersion, entries⟩ := by
  have version := readVersion_toString formatVersion
    ("\n".toList ++ (entries.map Entry.render).flatMap String.toList) (by simp)
  have body := readEntries_render entries _ (length_le_flatMap_render entries)
  unfold render
  rw [toList_lines, readLock]
  simp only [expect_append, version, body, Option.bind_eq_bind, Option.bind_some, Option.pure_def]

/-- Crates whose reader accepts the generated form only. -/
def reference (sha256 : ByteArray → List UInt8) : Crates where
  sha256 := sha256
  fromStr text :=
    match readLock text.toList with
    | some lock => .ok lock
    | none => .error "expected the generated form"
  fromStr_render entries := by rw [readLock_render]

def emptyDigest : List UInt8 :=
  [0xe3, 0xb0, 0xc4, 0x42, 0x98, 0xfc, 0x1c, 0x14, 0x9a, 0xfb, 0xf4, 0xc8, 0x99, 0x6f, 0xb9, 0x24,
    0x27, 0xae, 0x41, 0xe4, 0x64, 0x9b, 0x93, 0x4c, 0xa4, 0x95, 0x99, 0x1b, 0x78, 0x52, 0xb8, 0x55]

/-- The promise holds of a reader that can be run. -/
theorem neverRewritesHistory_accepted :
    let crates := reference fun _ => emptyDigest
    crates.NeverRewritesHistory "aimdb.lock" ∧
      (crates.checkWith "aimdb.lock" none ⟨[⟨"a", 1, .ok ""⟩], true, none⟩).1 =
        .ok (some ("  + a@1  sha256:" ++
          "e3b0c44298fc1c149afbf4c8996fb92427ae41e4649b934ca495991b7852b855\n")) :=
  ⟨Crates.neverRewritesHistory _ _, by decide⟩

end AimDb.Contracts
