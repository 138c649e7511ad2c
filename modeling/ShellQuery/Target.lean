/-
  ShellQuery.Target

  Targets: the address of a store, what to log in with, and the namespace that queries run in. The
  descriptions of a target never show a password, be it in its credentials or in its address.
-/
import ShellQuery.Json
import ShellQuery.Text.Cut
import ShellQuery.Text.Quoted

namespace ShellQuery

/-- What to log in with. -/
structure Credentials where
  username : String
  password : String
  /-- The database that knows the user. -/
  authSource : Option String := none
deriving DecidableEq, Repr

/-- Connection parameters of a target. -/
structure Target where
  address : String
  credentials : Option Credentials := none
  defaultNamespace : String
  active : Bool := true
deriving DecidableEq, Repr

/-! ## Addresses without their user -/

/-- Cuts a text after the first scheme separator, if there is one. -/
def cutScheme? : List Char → Option (List Char × List Char)
  | ':' :: '/' :: '/' :: rest => some ([':', '/', '/'], rest)
  | [] => none
  | c :: rest => (cutScheme? rest).map fun (scheme, rest) => (c :: scheme, rest)

/-- An address with three stars for what comes before the host. The host begins after the last
    `@` before the path. -/
def redact (address : List Char) : List Char :=
  match cutScheme? address with
  | none => address
  | some (scheme, rest) =>
    match Text.cutLast? '@' (rest.takeWhile (· ≠ '/')) with
    | none => address
    | some (_, host) => scheme ++ ['*', '*', '*', '@'] ++ host ++ rest.dropWhile (· ≠ '/')

namespace Target

/-- The address without user and password. -/
def redactedAddress (t : Target) : String :=
  .ofList (redact t.address.toList)

/-! ## Descriptions -/

/-- A text or its absence. -/
def describeOption : Option String → String
  | none => "None"
  | some s => "Some(" ++ s ++ ")"

def describeCredentials (c : Credentials) : String :=
  "Credentials \x7b username: " ++ Text.quoted c.username ++ ", password: \"***\", auth_source: " ++
    describeOption (c.authSource.map Text.quoted) ++ " \x7d"

/-- The description of a target in logs. -/
def describe (t : Target) : String :=
  "TargetDescriptor \x7b address: " ++ Text.quoted t.redactedAddress ++ ", credentials: " ++
    describeOption (t.credentials.map describeCredentials) ++ ", default_namespace: " ++
    Text.quoted t.defaultNamespace ++ ", active: " ++ (if t.active then "true" else "false") ++
    " \x7d"

/-! ## JSON -/

/-- Credentials as JSON, the password included. -/
def credentialsJson (c : Credentials) : Json :=
  .object [
    ("username", .string c.username),
    ("password", .string c.password),
    ("auth_source", .ofString? c.authSource)]

/-- A target as JSON. -/
def toJson (t : Target) : Json :=
  .object [
    ("address", .string t.address),
    ("credentials", match t.credentials with
      | none => .null
      | some c => credentialsJson c),
    ("default_namespace", .string t.defaultNamespace),
    ("active", .bool t.active)]

end Target

end ShellQuery
