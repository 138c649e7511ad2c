/-
  ShellQuery.Server.Address

  Addresses of servers: a scheme, an optional user, and one host or more. What is wrong with an
  address is found before anything is sent.
-/
import ShellQuery.Target

namespace ShellQuery.Server

/-- Why an address cannot be used. -/
inductive AddressFault where
  | noScheme
  | unknownScheme (scheme : String)
  | missingSlash
  | missingHosts
deriving DecidableEq, Repr

/-- The wording of an address fault. -/
def AddressFault.description : AddressFault → String
  | .noScheme => "connection string contains no scheme"
  | .unknownScheme scheme => "invalid connection string scheme: " ++ scheme
  | .missingSlash => "Missing delimiting slash between hosts and options"
  | .missingHosts => "missing hosts"

/-- The message of an error of a given kind, as the store reports it. -/
def errorMessage (kind : String) : String :=
  "Kind: " ++ kind ++ ", labels: \x7b\x7d"

/-- The message of an argument that cannot be used. -/
def invalidArgument (description : String) : String :=
  errorMessage ("An invalid argument was provided: " ++ description)

/-- Cuts a text at every given character. -/
def splitAt (mark : Char) : List Char → List (List Char)
  | [] => [[]]
  | c :: cs =>
    if c = mark then [] :: splitAt mark cs
    else
      match splitAt mark cs with
      | [] => [[c]]
      | part :: rest => (c :: part) :: rest

/-- A host with the usual number after a colon, where it has none of its own. -/
def fullHost (host : List Char) : String :=
  .ofList (if host.contains ':' then host else host ++ ":27017".toList)

/-- The hosts of an address, each in full. -/
def hosts (address : List Char) : Except AddressFault (List String) :=
  match cutScheme? address with
  | none => .error .noScheme
  | some (schemeMark, rest) =>
    let scheme := String.ofList (schemeMark.take (schemeMark.length - 3))
    if scheme ≠ "mongodb" && scheme ≠ "mongodb+srv" then .error (.unknownScheme scheme)
    else if !rest.contains '/' && rest.contains '?' then .error .missingSlash
    else
      let server := rest.takeWhile (· ≠ '/')
      let named := ((Text.cutLast? '@' server).map (·.2)).getD server
      if named = [] then .error .missingHosts else .ok ((splitAt ',' named).map fullHost)

/-- One unreachable server in the message of a connection that cannot be made. -/
def unreachableServer (host : String) : String :=
  "\x7b Address: " ++ host ++ ", Type: Unknown, Error: " ++
    errorMessage "I/O error: Network is unreachable (os error 101)" ++ " \x7d"

/-- The message of a connection that no server takes because there is no network. -/
def unreachableMessage (hosts : List String) : String :=
  errorMessage <|
    "Server selection timeout: No available servers. Topology: \x7b Type: Unknown, Servers: [ " ++
      ", ".intercalate (hosts.map unreachableServer) ++ " ] \x7d"

end ShellQuery.Server
