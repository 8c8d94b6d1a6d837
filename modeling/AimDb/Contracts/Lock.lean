import Mathlib.Data.List.Sort
import Mathlib.Data.Prod.Lex
import Mathlib.Data.String.Basic

/-!
# The contract lock

The lock file says under which hash each `NAME@VERSION` was accepted. A check
compares it with the catalog in one pass over both, collects what no update
accepts, and writes the file only when an update finds nothing of that kind.
The digest and the TOML reader are parameters: both come from other crates.
-/

namespace AimDb.Contracts

/-- `FORMAT_VERSION`: of the lock file and of the shape text it hashes. -/
def formatVersion : UInt32 := 1

def fileName : String := "aimdb.lock"

def header : String :=
  "# aimdb.lock: generated, do not edit. AIMDB_UPDATE_LOCK=1 cargo test to update.\n"

/-- `NAME@VERSION`. -/
abbrev ContractId := String × UInt32

/-- One catalog entry: its shape text, or why it cannot be traced. -/
structure Traced where
  name : String
  version : UInt32
  shape : Except String String

def Traced.id (traced : Traced) : ContractId := (traced.name, traced.version)

structure Entry where
  name : String
  version : UInt32
  shape : String
  deriving DecidableEq, Repr

namespace Entry

def id (entry : Entry) : ContractId := (entry.name, entry.version)

/-- The derived order: name, version, shape. -/
def order (entry : Entry) : String ×ₗ ℕ ×ₗ String :=
  toLex (entry.name, toLex (entry.version.toNat, entry.shape))

def le (first second : Entry) : Prop := first.order ≤ second.order

instance : DecidableRel Entry.le :=
  fun first second => inferInstanceAs (Decidable (first.order ≤ second.order))

/-- `entries.sort()`. -/
def sort (entries : List Entry) : List Entry := entries.insertionSort Entry.le

end Entry

structure Lock where
  version : UInt32
  contract : List Entry

def upperHexDigit (n : ℕ) : Char := if n < 10 then Char.ofNat (48 + n) else Char.ofNat (55 + n)

/-- `{:04X}`. -/
def upperHex4 (n : ℕ) : List Char :=
  [n / 4096 % 16, n / 256 % 16, n / 16 % 16, n % 16].map upperHexDigit

/-- `char::is_control`: the category Cc. -/
def isControl (c : Char) : Bool := c.toNat < 0x20 || (0x7f ≤ c.toNat && c.toNat < 0xa0)

def quoteChar (c : Char) : List Char :=
  if c = '"' then ['\\', '"']
  else if c = '\\' then ['\\', '\\']
  else if isControl c then '\\' :: 'u' :: upperHex4 c.toNat
  else [c]

def quote (s : String) : String := String.ofList ('"' :: (s.toList.flatMap quoteChar ++ ['"']))

def Entry.render (entry : Entry) : String :=
  "\n[[contract]]\nname = " ++ quote entry.name ++ "\nversion = " ++ toString entry.version ++
    "\nshape = " ++ quote entry.shape ++ "\n"

def render (entries : List Entry) : String :=
  header ++ "version = " ++ toString formatVersion ++ "\n" ++
    String.join (entries.map Entry.render)

/-- `sha2` and `toml`: a digest of the shape text, and a reader of which the
check only needs that it reads the generated form back. -/
structure Crates where
  sha256 : ByteArray → List UInt8
  fromStr : String → Except String Lock
  fromStr_render : ∀ entries, fromStr (render entries) = .ok ⟨formatVersion, entries⟩

/-- `{byte:02x}`. -/
def lowerHex2 (byte : UInt8) : List Char :=
  [Nat.digitChar (byte.toNat / 16), Nat.digitChar (byte.toNat % 16)]

variable (crates : Crates)

/-- `sha256:<hex>` of the shape text. -/
def Crates.hash (shape : String) : String :=
  "sha256:" ++ String.ofList ((crates.sha256 shape.toUTF8).flatMap lowerHex2)

def Crates.parse (text : String) : Except String Lock :=
  match crates.fromStr text with
  | .ok lock => .ok lock
  | .error e => .error (fileName ++ " cannot be read: " ++ e)

structure Report where
  failures : List String := []
  added : List Entry := []
  removed : List Entry := []
  /-- The lock was written by another format version. -/
  staleFormat : Bool := false
  entries : List Entry := []

def idText (id : ContractId) : String := id.1 ++ "@" ++ toString id.2

def changeLine (sign : String) (entry : Entry) : String :=
  "  " ++ sign ++ " " ++ idText entry.id ++ "  " ++ entry.shape ++ "\n"

def Report.changes (report : Report) : String :=
  String.join (report.added.map (changeLine "+")) ++
    String.join (report.removed.map (changeLine "-"))

/-- The maps of `diff`, keyed by the id of the entries they hold. -/
abbrev EntryMap := List Entry

def EntryMap.get (map : EntryMap) (id : ContractId) : Option Entry := map.find? (·.id = id)

def EntryMap.remove (map : EntryMap) (id : ContractId) : EntryMap := map.filter (·.id ≠ id)

def EntryMap.insert (map : EntryMap) (entry : Entry) : EntryMap := map.remove entry.id ++ [entry]

def lockedTwice (entry : Entry) : String :=
  idText entry.id ++ ": locked twice in " ++ fileName ++ "\n  fix: restore " ++ fileName ++
    " from version control"

/-- The first loop of `diff`: every locked entry into the map. -/
def fillLocked (lockedMap : EntryMap) (failures : List String) :
    List Entry → EntryMap × List String
  | [] => (lockedMap, failures)
  | entry :: rest =>
      let twice := (lockedMap.get entry.id).isSome
      fillLocked (lockedMap.insert entry)
        (if twice then failures ++ [lockedTwice entry] else failures) rest

/-- The variables of the second loop. -/
structure DiffState where
  report : Report
  lockedMap : EntryMap
  seen : List ContractId := []

/-- What `diff` starts its second loop with. -/
def readLocked (locked : Option Lock) : DiffState :=
  match locked with
  | some lock =>
      if lock.version ≠ formatVersion then ⟨{ staleFormat := true }, [], []⟩
      else
        let filled := fillLocked [] [] lock.contract
        ⟨{ failures := filled.2 }, filled.1, []⟩
  | none => ⟨{}, [], []⟩

def listedTwice (traced : Traced) : String :=
  idText traced.id ++
    ": listed twice in the catalog\n  fix: give each contract its own NAME, or bump VERSION"

def untraceable (traced : Traced) (reason : String) : String :=
  idText traced.id ++ ": the shape cannot be traced: " ++ reason

def shapeChanged (old entry : Entry) (text : String) : String :=
  idText entry.id ++ ": the shape changed without a VERSION bump\n  locked:  " ++ old.shape ++
    "\n  current: " ++ entry.shape ++ "  " ++ text ++
    "\n  fix: bump VERSION (and add a migration step), or revert the change"

def DiffState.fail (state : DiffState) (failure : String) : DiffState :=
  { state with report.failures := state.report.failures ++ [failure] }

def DiffState.push (state : DiffState) (entry : Entry) : DiffState :=
  { state with report.entries := state.report.entries ++ [entry] }

def Crates.entryOf (traced : Traced) (text : String) : Entry :=
  ⟨traced.name, traced.version, crates.hash text⟩

/-- One round of the loop over the catalog. -/
def DiffState.take (state : DiffState) (traced : Traced) : DiffState :=
  if traced.id ∈ state.seen then state.fail (listedTwice traced)
  else
    let state := { state with seen := traced.id :: state.seen }
    match traced.shape with
    | .error reason => state.fail (untraceable traced reason)
    | .ok text =>
        let entry := crates.entryOf traced text
        let rest := { state with lockedMap := state.lockedMap.remove traced.id }
        match state.lockedMap.get traced.id with
        | some old =>
            -- a locked entry never changes
            if old.shape ≠ entry.shape then (rest.fail (shapeChanged old entry text)).push old
            else rest.push entry
        | none =>
            if state.report.staleFormat then rest.push entry
            else { rest with report.added := rest.report.added ++ [entry] }.push entry

def DiffState.finish (state : DiffState) : Report :=
  { state.report with
    entries := Entry.sort state.report.entries
    added := Entry.sort state.report.added
    removed := Entry.sort state.lockedMap }

def Crates.diff (locked : Option Lock) (current : List Traced) : Report :=
  (current.foldl (DiffState.take crates) (readLocked locked)).finish

/-- One call of `check_with`.  A write is whole or refused: where the operating system
refuses it, the file is assumed to stay as it was. -/
structure Call where
  current : List Traced
  update : Bool
  refused : Option String := none

/-- The result of a call, and the file after it. -/
abbrev Outcome := Except String (Option String) × Option ByteArray

/-- `fs::read_to_string`: `none` when there is no file. -/
def readToString (file : Option ByteArray) : Except String (Option String) :=
  match file with
  | none => .ok none
  | some bytes =>
      match String.fromUTF8? bytes with
      | some text => .ok (some text)
      | none => .error "stream did not contain valid UTF-8"

def failureText (report : Report) : String :=
  String.join (report.failures.map (· ++ "\n")) ++
    if report.changes ≠ "" then
      fileName ++ " would also change:\n" ++ report.changes ++ "\n"
    else ""

def staleText (locked : Option Lock) : String :=
  fileName ++ " has format version " ++ toString ((locked.map (·.version)).getD 0) ++
    ", this aimdb-data-contracts writes " ++ toString formatVersion ++
    "\n  fix: regenerate it with AIMDB_UPDATE_LOCK=1 cargo test\n"

def outOfDateText (drift : Bool) (changes : String) : String :=
  fileName ++ " is out of date:\n" ++
    (if drift then "  (not in its generated form)\n" else "") ++ changes ++
    "  fix: accept with AIMDB_UPDATE_LOCK=1 cargo test\n"

/-- What `check_with` does with the report on the file it read. -/
def Report.conclude (path : String) (report : Report) (text : Option String)
    (locked : Option Lock) (file : Option ByteArray) (call : Call) : Outcome :=
  let changes := report.changes
  let rendered := render report.entries
  let drift : Bool := changes = "" && text ≠ some rendered
  if report.failures ≠ [] then (.error (failureText report), file)
  else if report.staleFormat && !call.update then (.error (staleText locked), file)
  else if changes = "" && !drift then (.ok none, file)
  else if !call.update then (.error (outOfDateText drift changes), file)
  else
    match call.refused with
    | some e => (.error (path ++ ": " ++ e), file)
    | none => (.ok (some (if drift then "  (regenerated)\n" else changes)), some rendered.toUTF8)

/-- `text.as_deref().map(parse).transpose()`. -/
def Crates.parseAll (text : Option String) : Except String (Option Lock) :=
  match text with
  | none => .ok none
  | some text => (crates.parse text).map some

def Crates.checkWith (path : String) (file : Option ByteArray) (call : Call) : Outcome :=
  match readToString file with
  | .error e => (.error (path ++ ": " ++ e), file)
  | .ok text =>
      match crates.parseAll text with
      | .error e => (.error e, file)
      | .ok locked => (crates.diff locked call.current).conclude path text locked file call

def Crates.afterCalls (path : String) (file : Option ByteArray) (calls : List Call) :
    Option ByteArray :=
  calls.foldl (fun file call => (crates.checkWith path file call).2) file

end AimDb.Contracts
