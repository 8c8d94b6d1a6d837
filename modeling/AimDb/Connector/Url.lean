import AimDb.Error
import AimDb.Strings.Cut
import AimDb.Topic.Pattern

/-!
# Connector endpoint URLs

The parser cuts the text at its separators, one after the other.
-/

namespace AimDb.Connector

open Framing (cut)
open Strings (rcut splitOnce)
open Topic (Str)

structure ConnectorUrl where
  scheme : Str
  host : Str
  port : Option UInt16
  path : Option Str
  username : Option Str
  password : Option Str
  queryParams : List (Str × Str)
  deriving DecidableEq, Repr

def unsigned : Str → Str
  | '+' :: digits => digits
  | text => text

/-- Decimal digits, perhaps behind a plus, that fit the width. -/
def parseU16 (text : Str) : Option UInt16 :=
  let digits := unsigned text
  if digits ≠ [] ∧ digits.all (·.isDigit) ∧ Nat.ofDigitChars 10 digits 0 < 2 ^ 16 then
    some (UInt16.ofNat (Nat.ofDigitChars 10 digits 0))
  else none

/-- `://` -/
def schemeSep : Str := [':', '/', '/']

def splitCredentials (rest : Str) : Option Str × Str :=
  match cut '@' rest with
  | some (creds, host) => (some creds, host)
  | none => (none, rest)

def splitUser : Option Str → Option Str × Option Str
  | some creds =>
      match cut ':' creds with
      | some (user, pass) => (some user, some pass)
      | none => (some creds, none)
  | none => (none, none)

def queryPairs (query : Str) : List (Str × Str) := (query.splitOn '&').filterMap (cut '=')

def splitPath (hostPart : Str) : Str × Option Str × List (Str × Str) :=
  match cut '/' hostPart with
  | some (hostPort, rest) =>
      match cut '?' ('/' :: rest) with
      | some (path, query) => (hostPort, some path, queryPairs query)
      | none => (hostPort, some ('/' :: rest), [])
  | none => (hostPart, none, [])

def splitPort (hostPort : Str) : Str × Option UInt16 :=
  match rcut ':' hostPort with
  | some (host, port) => (host, parseU16 port)
  | none => (hostPort, none)

def parseConnectorUrl (url : Str) : Except DbError ConnectorUrl :=
  match splitOnce schemeSep url with
  | none =>
      .error (.invalidOperation "parse_connector_url"
        s!"Missing scheme in URL: {String.ofList url}")
  | some (scheme, rest) =>
      let (credentials, hostPart) := splitCredentials rest
      let (username, password) := splitUser credentials
      let (hostPort, path, queryParams) := splitPath hostPart
      let (host, port) := splitPort hostPort
      .ok { scheme, host, port, path, username, password, queryParams }

def Free (stops text : Str) : Prop := ∀ c ∈ stops, c ∉ text

instance (stops text : Str) : Decidable (Free stops text) :=
  List.decidableBAll (· ∉ text) stops

structure User where
  name : Str
  password : Option Str
  name_free : Free [':', '@', '/'] name
  password_free : ∀ text ∈ password, Free [':', '@', '/'] text

def User.text (user : User) : Str :=
  user.name ++ (user.password.map (List.cons ':')).getD []

inductive Host
  | name (text : Str) (free : Free [':', '@', '/', '?'] text)
  | literal (address : Str) (free : Free ['@', '/', '?'] address) (colon : ':' ∈ address)

def Host.IsName : Host → Prop
  | .name .. => True
  | .literal .. => False

def Host.text : Host → Str
  | .name text _ => text
  | .literal address .. => '[' :: address ++ [']']

/-- The components of a URL, each without what ends it. -/
structure Written where
  scheme : Str
  user : Option User
  host : Host
  port : Option UInt16
  path : Option Str
  query : Option Str
  scheme_free : ¬ schemeSep <:+: scheme
  path_free : ∀ text ∈ path, '?' ∉ text
  path_slash : ∀ text ∈ path, ∃ rest, text = '/' :: rest

namespace Written

variable (written : Written)

def credentialsText : Str := (written.user.map fun user => user.text ++ ['@']).getD []

def portText : Str := (written.port.map fun port => ':' :: Nat.toDigits 10 port.toNat).getD []

def queryText : Str := (written.query.map (List.cons '?')).getD []

def resource : Str := written.path.getD [] ++ written.queryText

/-- `scheme://[user[:password]@]host[:port][/path][?query]` -/
def render : Str :=
  written.scheme ++ schemeSep ++
    (written.credentialsText ++ (written.host.text ++ written.portText ++ written.resource))

def pairText (pair : Str × Str) : Str := pair.1 ++ '=' :: pair.2

def queryOf : List (Str × Str) → Option Str
  | [] => none
  | pairs => some (['&'].intercalate (pairs.map pairText))

/-- A parsed URL has exactly the components that were written. -/
structure Returned (url : ConnectorUrl) : Prop where
  scheme : url.scheme = written.scheme
  host : url.host = written.host.text
  port : url.port = written.port
  path : url.path = written.path
  username : url.username = written.user.map User.name
  password : url.password = written.user.bind User.password
  query : queryOf url.queryParams = written.query

/-- Whose separators all stand where the parser looks for them, and whose query is made of
parameters. -/
structure Readable : Prop where
  unaddressed : written.user = none → '@' ∉ written.resource
  placed : written.path = none → written.query = none
  numbered : written.port = none → written.host.IsName
  parameters : ∀ query ∈ written.query, ∀ part ∈ query.splitOn '&', '=' ∈ part

end Written

theorem Host.text_free (host : Host) : Free ['@', '/', '?'] host.text := by
  cases host with
  | name text free => exact fun c mem => free c (List.mem_cons_of_mem _ mem)
  | literal address free colon =>
      intro c mem
      have outside : c ≠ '[' ∧ c ≠ ']' := by
        simp only [List.mem_cons, List.not_mem_nil, or_false] at mem
        rcases mem with rfl | rfl | rfl <;> decide
      simp [text, free c mem, outside]

theorem unsigned_eq_self {text : Str} (digits : ∀ c ∈ text, c.isDigit) :
    unsigned text = text := by
  unfold unsigned
  split
  next rest => exact absurd (digits '+' List.mem_cons_self) (by decide)
  · rfl

theorem parseU16_toDigits (port : UInt16) :
    parseU16 (Nat.toDigits 10 port.toNat) = some port := by
  have digits : ∀ c ∈ Nat.toDigits 10 port.toNat, c.isDigit :=
    fun c mem => Nat.isDigit_of_mem_toDigits (by decide) (by decide) mem
  have value : Nat.ofDigitChars 10 (Nat.toDigits 10 port.toNat) 0 = port.toNat :=
    Nat.ofDigitChars_ten_toDigits
  have small : port.toNat < 2 ^ 16 := port.toNat_lt
  have nonempty : Nat.toDigits 10 port.toNat ≠ [] := Nat.toDigits_ne_nil
  have inRange : Nat.ofDigitChars 10 (Nat.toDigits 10 port.toNat) 0 < 2 ^ 16 := by
    rw [value]
    exact small
  rw [parseU16, unsigned_eq_self digits,
    if_pos ⟨nonempty, List.all_eq_true.mpr digits, inRange⟩, value, UInt16.ofNat_toNat]

namespace Written

variable {written : Written}

theorem authority_free (written : Written) :
    Free ['@', '/', '?'] (written.host.text ++ written.portText) := by
  intro c mem
  rw [List.mem_append, not_or]
  refine ⟨written.host.text_free c mem, ?_⟩
  unfold portText
  cases written.port with
  | none => exact List.not_mem_nil
  | some port =>
      have notDigit : c.isDigit = false ∧ c ≠ ':' := by
        simp only [List.mem_cons, List.not_mem_nil, or_false] at mem
        rcases mem with rfl | rfl | rfl <;> decide
      intro inside
      rcases List.mem_cons.mp inside with colon | digit
      · exact notDigit.2 colon
      · have isDigit := Nat.isDigit_of_mem_toDigits (by decide) (by decide) digit
        rw [notDigit.1] at isDigit
        cases isDigit

theorem splitCredentials_of_user {user : User} (given : written.user = some user) (rest : Str) :
    splitCredentials (written.credentialsText ++ rest) = (some user.text, rest) := by
  have free : '@' ∉ user.text := by
    unfold User.text
    rw [List.mem_append, not_or]
    refine ⟨user.name_free '@' (by decide), ?_⟩
    cases hidden : user.password with
    | none => exact List.not_mem_nil
    | some password =>
        have inner := user.password_free password hidden '@' (by decide)
        simpa using inner
  have joined : written.credentialsText ++ rest = user.text ++ '@' :: rest := by
    simp [credentialsText, given]
  rw [joined, splitCredentials, Framing.cut_append free]

theorem splitUser_text (user : User) :
    splitUser (some user.text) = (some user.name, user.password) := by
  have free : ':' ∉ user.name := user.name_free ':' (by decide)
  unfold splitUser User.text
  cases user.password with
  | none => simp [Framing.cut_eq_none_iff.mpr free]
  | some password => simp [Framing.cut_append free]

theorem splitUser_some (creds : Str) : (splitUser (some creds)).1 ≠ none := by
  unfold splitUser
  cases found : cut ':' creds <;> simp [found]

theorem splitUser_none {rest : Str} :
    (splitUser (splitCredentials rest).1).1 = none ↔ '@' ∉ rest := by
  unfold splitCredentials
  cases found : cut '@' rest with
  | none => exact ⟨fun _ => Framing.cut_eq_none_iff.mp found, fun _ => rfl⟩
  | some parts =>
      obtain ⟨creds, host⟩ := parts
      have mem : '@' ∈ rest := by
        rw [(Framing.cut_eq_some_iff.mp found).1]
        exact List.mem_append_right _ List.mem_cons_self
      exact ⟨fun absent => absurd absent (splitUser_some creds),
        fun absent => absurd mem absent⟩

theorem splitCredentials_of_free {rest : Str} (free : '@' ∉ rest) :
    splitCredentials rest = (none, rest) := by
  rw [splitCredentials, Framing.cut_eq_none_iff.mpr free]

/-- The parameters that are read are the parts with an equals sign. -/
theorem queryPairs_text (query : Str) :
    (queryPairs query).map pairText = (query.splitOn '&').filter ('=' ∈ ·) := by
  rw [queryPairs, List.map_filterMap]
  induction query.splitOn '&' with
  | nil => rfl
  | cons part parts inductionHypothesis =>
      cases found : cut '=' part with
      | none =>
          have absent := Framing.cut_eq_none_iff.mp found
          rw [List.filterMap_cons_none (by rw [found]; rfl),
            List.filter_cons_of_neg (by simpa using absent)]
          exact inductionHypothesis
      | some pair =>
          have whole : part = pairText pair := (Framing.cut_eq_some_iff.mp found).1
          have inside : '=' ∈ part := by simp [whole, pairText]
          rw [List.filterMap_cons_some (by rw [found]; rfl),
            List.filter_cons_of_pos (by simpa using inside), inductionHypothesis, whole]

theorem sep_notMem_splitOn (sep : Char) (text : Str) :
    ∀ part ∈ text.splitOn sep, sep ∉ part := by
  induction text with
  | nil => simp
  | cons first rest inductionHypothesis =>
      rw [List.splitOn_cons_eq_if_modifyHead]
      split
      · simpa using inductionHypothesis
      · next other =>
          cases parts : rest.splitOn sep with
          | nil => exact absurd parts (List.splitOn_ne_nil sep rest)
          | cons part parts =>
              rw [parts, List.forall_mem_cons] at inductionHypothesis
              rw [List.modifyHead_cons, List.forall_mem_cons]
              refine ⟨?_, inductionHypothesis.2⟩
              rw [List.mem_cons, not_or]
              exact ⟨fun same => other (by simp [same]), inductionHypothesis.1⟩

/-- A query is the text of its parameters exactly when every part has an equals sign. -/
theorem queryOf_queryPairs (query : Str) :
    queryOf (queryPairs query) = some query ↔ ∀ part ∈ query.splitOn '&', '=' ∈ part := by
  have texts := queryPairs_text query
  constructor
  · intro same part mem
    have kept : ['&'].intercalate ((query.splitOn '&').filter ('=' ∈ ·)) = query ∧
        (query.splitOn '&').filter ('=' ∈ ·) ≠ [] := by
      rw [← texts]
      cases pairs : queryPairs query with
      | nil => rw [pairs] at same; cases same
      | cons pair pairs' =>
          rw [pairs] at same
          exact ⟨Option.some.inj same, by simp⟩
    have free : ∀ part ∈ (query.splitOn '&').filter ('=' ∈ ·), '&' ∉ part :=
      fun part mem => sep_notMem_splitOn '&' query part (List.mem_of_mem_filter mem)
    have parts := List.splitOn_intercalate '&' free kept.2
    rw [kept.1] at parts
    rw [parts] at mem
    simpa using (List.mem_filter.mp mem).2
  · intro parameters
    rw [List.filter_eq_self.mpr (by simpa using parameters)] at texts
    cases pairs : queryPairs query with
    | nil =>
        rw [pairs] at texts
        exact absurd texts.symm (List.splitOn_ne_nil '&' query)
    | cons pair pairs' =>
        rw [queryOf, ← pairs, texts, List.intercalate_splitOn]
        simp

theorem splitPath_none {hostPart : Str} (absent : (splitPath hostPart).2.1 = none) :
    (splitPath hostPart).2.2 = [] := by
  unfold splitPath at absent ⊢
  cases slash : cut '/' hostPart with
  | none => rfl
  | some parts =>
      cases mark : cut '?' ('/' :: parts.2) <;> simp [slash, mark] at absent

theorem splitPath_unmarked {front rest : Str} (free : '/' ∉ front)
    (unmarked : '?' ∉ '/' :: rest) :
    splitPath (front ++ '/' :: rest) = (front, some ('/' :: rest), []) := by
  rw [splitPath, Framing.cut_append free]
  dsimp only
  rw [Framing.cut_eq_none_iff.mpr unmarked]

theorem splitPath_marked {front rest : Str} (free : '/' ∉ front) (unmarked : '?' ∉ '/' :: rest)
    (query : Str) : splitPath (front ++ ('/' :: rest ++ '?' :: query)) =
      (front, some ('/' :: rest), queryPairs query) := by
  rw [splitPath, List.cons_append, Framing.cut_append free]
  dsimp only
  rw [← List.cons_append, Framing.cut_append unmarked]

theorem splitPath_resource {front : Str} (free : '/' ∉ front)
    (placed : written.path = none → written.query = none) :
    splitPath (front ++ written.resource) =
      (front, written.path, (written.query.map queryPairs).getD []) := by
  unfold resource queryText
  cases path : written.path with
  | none =>
      have noSlash : cut '/' front = none := Framing.cut_eq_none_iff.mpr free
      simp [placed path, splitPath, noSlash]
  | some text =>
      obtain ⟨rest, rfl⟩ := written.path_slash text path
      have unmarked := written.path_free _ path
      cases written.query with
      | none =>
          rw [Option.getD_some, Option.map_none, Option.getD_none, List.append_nil]
          exact splitPath_unmarked free unmarked
      | some query => exact splitPath_marked free unmarked query

theorem splitPort_of_port {port : UInt16} (given : written.port = some port) :
    splitPort (written.host.text ++ written.portText) = (written.host.text, some port) := by
  have free : ':' ∉ Nat.toDigits 10 port.toNat := by
    intro mem
    exact absurd (Nat.isDigit_of_mem_toDigits (by decide) (by decide) mem) (by decide)
  simp [portText, given, splitPort, Strings.rcut_append _ free, parseU16_toDigits]

/-- Without a port the address of a literal is taken apart at its last colon. -/
theorem splitPort_of_none (absent : written.port = none) :
    splitPort (written.host.text ++ written.portText) = (written.host.text, none) ↔
      written.host.IsName := by
  have alone : written.host.text ++ written.portText = written.host.text := by
    simp [portText, absent]
  rw [alone]
  cases written.host with
  | name text free =>
      have noColon : rcut ':' text = none :=
        Strings.rcut_eq_none_iff.mpr (free ':' (by decide))
      simp [Host.text, Host.IsName, splitPort, noColon]
  | literal address free colon =>
      have mem : ':' ∈ (Host.literal address free colon).text := by simp [Host.text, colon]
      obtain ⟨front, back, found⟩ := Strings.rcut_isSome mem
      have whole := (Strings.eq_append_of_rcut found).1
      have shorter : front ≠ (Host.literal address free colon).text := by
        intro same
        have lengths := congrArg List.length whole
        rw [same, List.length_append, List.length_cons] at lengths
        omega
      simp [Host.IsName, splitPort, found, shorter]

def rest (written : Written) : Str :=
  written.credentialsText ++ (written.host.text ++ written.portText ++ written.resource)

theorem splitOnce_render (written : Written) :
    splitOnce schemeSep written.render = some (written.scheme, written.rest) :=
  Strings.splitOnce_append (by decide) written.scheme_free _

theorem parse_render (written : Written) :
    parseConnectorUrl written.render = .ok
      { scheme := written.scheme
        host := (splitPort (splitPath (splitCredentials written.rest).2).1).1
        port := (splitPort (splitPath (splitCredentials written.rest).2).1).2
        path := (splitPath (splitCredentials written.rest).2).2.1
        username := (splitUser (splitCredentials written.rest).1).1
        password := (splitUser (splitCredentials written.rest).1).2
        queryParams := (splitPath (splitCredentials written.rest).2).2.2 } := by
  unfold parseConnectorUrl
  rw [splitOnce_render]

theorem splitCredentials_rest
    (free : written.user = none → '@' ∉ written.resource) :
    splitCredentials written.rest = (written.user.map User.text,
      written.host.text ++ written.portText ++ written.resource) := by
  cases given : written.user with
  | none =>
      have absent : '@' ∉ written.rest := by
        have authority := written.authority_free '@' (by decide)
        have resource := free given
        simp only [rest, credentialsText, given, List.mem_append] at authority ⊢
        simp_all
      rw [splitCredentials_of_free absent]
      simp [rest, credentialsText, given]
  | some user => exact splitCredentials_of_user given _

theorem splitUser_map (user : Option User) :
    splitUser (user.map User.text) = (user.map User.name, user.bind User.password) := by
  cases user with
  | none => rfl
  | some user => exact splitUser_text user

theorem splitPort_authority :
    splitPort (written.host.text ++ written.portText) = (written.host.text, written.port) ↔
      (written.port = none → written.host.IsName) := by
  cases given : written.port with
  | none =>
      rw [splitPort_of_none given]
      simp
  | some port =>
      rw [splitPort_of_port given]
      simp

theorem queryOf_query (query : Option Str) :
    queryOf ((query.map queryPairs).getD []) = query ↔
      ∀ text ∈ query, ∀ part ∈ text.splitOn '&', '=' ∈ part := by
  cases query with
  | none => simp [queryOf]
  | some text => simpa using queryOf_queryPairs text

/-- A URL is read back exactly where no separator of its own comes before the one the parser
looks for, and its query has nothing but parameters. -/
theorem parse_render_iff (written : Written) :
    (∃ url, parseConnectorUrl written.render = .ok url ∧ written.Returned url) ↔
      written.Readable := by
  rw [parse_render]
  have slash : '/' ∉ written.host.text ++ written.portText :=
    written.authority_free '/' (by decide)
  constructor
  · rintro ⟨url, same, returned⟩
    obtain rfl := Except.ok.inj same
    obtain ⟨-, host, port, path, username, -, query⟩ := returned
    have free : written.user = none → '@' ∉ written.resource := by
      intro absent inside
      rw [absent] at username
      refine splitUser_none.mp username ?_
      simp [rest, inside]
    have placed : written.path = none → written.query = none := by
      intro absent
      rw [← query]
      exact congrArg queryOf (splitPath_none (path.trans absent))
    rw [splitCredentials_rest free, splitPath_resource slash placed] at host port query
    exact ⟨free, placed, splitPort_authority.mp (Prod.ext host port),
      (queryOf_query written.query).mp query⟩
  · rintro ⟨free, placed, numbered, parameters⟩
    rw [splitCredentials_rest free, splitUser_map, splitPath_resource slash placed,
      splitPort_authority.mpr numbered]
    exact ⟨_, rfl, rfl, rfl, rfl, rfl, rfl, rfl, (queryOf_query written.query).mpr parameters⟩

/-- `ws://host/path?to=a@b` -/
def recipient : Written where
  scheme := ['w', 's']
  user := none
  host := .name ['h', 'o', 's', 't'] (by decide)
  port := none
  path := some ['/', 'p', 'a', 't', 'h']
  query := some ['t', 'o', '=', 'a', '@', 'b']
  scheme_free := by decide
  path_free := by decide
  path_slash := by
    rintro text given
    exact ⟨_, (Option.some.inj given).symm⟩

/-- The host and half of the query are taken for a user. -/
theorem recipient_misread :
    parseConnectorUrl recipient.render = .ok
      { scheme := ['w', 's']
        host := ['b']
        port := none
        path := none
        username := some ['h', 'o', 's', 't', '/', 'p', 'a', 't', 'h', '?', 't', 'o', '=', 'a']
        password := none
        queryParams := [] } ∧
    ¬ ∃ url, parseConnectorUrl recipient.render = .ok url ∧ recipient.Returned url := by
  have misread : parseConnectorUrl recipient.render = .ok
      { scheme := ['w', 's']
        host := ['b']
        port := none
        path := none
        username := some ['h', 'o', 's', 't', '/', 'p', 'a', 't', 'h', '?', 't', 'o', '=', 'a']
        password := none
        queryParams := [] } := by rfl
  refine ⟨misread, ?_⟩
  rintro ⟨url, same, returned⟩
  obtain rfl := Except.ok.inj (misread.symm.trans same)
  exact absurd returned.host (by decide)

end Written

end AimDb.Connector
