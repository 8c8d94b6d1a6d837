import AimDb.Connector.Url
import Mathlib.Data.List.DropRight

/-!
# The broker's URL in logs and errors

The text is masked by a scanner of its own, which looks for the credentials before the first
slash; the parser looks for them in all of the text behind the scheme.
-/

namespace AimDb.Mqtt.Native

open Connector (ConnectorUrl parseConnectorUrl schemeSep splitCredentials splitUser splitPath
  splitPort)
open Framing (cut)
open Strings (rcut)
open Topic (Str)

/-- `:****@` -/
def masked : Str := [':', '*', '*', '*', '*', '@']

/-- Cut before the first slash. -/
def splitAuthority (rest : Str) : Str × Str :=
  match cut '/' rest with
  | some (authority, path) => (authority, '/' :: path)
  | none => (rest, [])

def maskPassword (front authority path : Str) : Option Str :=
  match rcut '@' authority with
  | none => none
  | some (userinfo, host) =>
      match cut ':' userinfo with
      | some (user, _) => some (front ++ user ++ masked ++ host ++ path)
      | none => none

def redacted (url : Str) : Str :=
  let (length, rest) :=
    match Strings.splitOnce schemeSep url with
    | some (_, rest) => (url.length - rest.length, rest)
    | none => (0, url)
  let (authority, path) := splitAuthority rest
  (maskPassword (url.take length) authority path).getD url

/-- Every occurrence of a text that is not empty, from the left. The count is of characters
already replaced. -/
def replaceFrom (old new : Str) : ℕ → Str → Str
  | _, [] => []
  | skipped + 1, _ :: text => replaceFrom old new skipped text
  | 0, c :: text =>
      if old.isPrefixOf (c :: text) then new ++ replaceFrom old new (old.length - 1) text
      else c :: replaceFrom old new 0 text

def replace (old new text : Str) : Str := replaceFrom old new 0 text

def withTopic (brokerUrl : Str) : Str :=
  if '/' ∉ brokerUrl ∨ brokerUrl.count '/' < 3 then
    brokerUrl.rdropWhile (· = '/') ++ ['/', 'd', 'u', 'm', 'm', 'y']
  else brokerUrl

def displayParseError : DbError → String
  | .invalidOperation operation reason => s!"Invalid operation '{operation}': {reason}"
  | _ => ""

def portOf (parsed : ConnectorUrl) : UInt16 :=
  parsed.port.getD (if parsed.scheme = ['m', 'q', 't', 't', 's'] then 8883 else 1883)

/-- What `build` writes that it derives from the broker's URL. -/
inductive Report
  | rejected (error : Str)
  /-- The line it logs, and the broker the event loop names in its own lines. -/
  | connecting (line broker : Str)
  deriving DecidableEq

def report (brokerUrl : Str) : Report :=
  let url := withTopic brokerUrl
  match parseConnectorUrl url with
  | .error e =>
      .rejected (replace url (redacted url) (s!"Invalid MQTT URL: {displayParseError e}").toList)
  | .ok parsed =>
      .connecting ("Creating MQTT client for ".toList ++ parsed.host ++
        ':' :: Nat.toDigits 10 (portOf parsed).toNat) (redacted brokerUrl)

structure Broker where
  scheme : Option Str
  user : Str
  tail : Str
  scheme_free : ∀ text ∈ scheme, ¬ schemeSep <:+: text
  user_colon : ':' ∉ user
  user_at : '@' ∉ user

namespace Broker

variable (broker : Broker)

def lead : Str := (broker.scheme.map (· ++ schemeSep)).getD []

def rest (password : Str) : Str := broker.user ++ ':' :: password ++ '@' :: broker.tail

def url (password : Str) : Str := broker.lead ++ broker.rest password

/-- The parser takes it for the password, or rejects the text for want of a scheme. -/
structure Carries (password : Str) : Prop where
  single : '@' ∉ password
  rejected : broker.scheme = none → Strings.splitOnce schemeSep (broker.url password) = none

def Slashless (password : Str) : Prop := '/' ∉ broker.user ∧ '/' ∉ password

end Broker

end AimDb.Mqtt.Native
