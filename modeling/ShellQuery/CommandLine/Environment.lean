/-
  ShellQuery.CommandLine.Environment

  What a command finds around it: variables and files. A directory of text files is one such
  environment; paths into it are followed part by part.
-/

namespace ShellQuery.CommandLine

/-! ## Reading files -/

/-- Why a file cannot be read. -/
inductive ReadFault where
  | missing
  /-- A part of the path before its end is no directory. -/
  | notDirectory
  | directory
  | denied
  | notText
deriving DecidableEq, Repr

/-- The message of a fault. -/
def ReadFault.message : ReadFault → String
  | .missing => "No such file or directory (os error 2)"
  | .notDirectory => "Not a directory (os error 20)"
  | .directory => "Is a directory (os error 21)"
  | .denied => "Permission denied (os error 13)"
  | .notText => "stream did not contain valid UTF-8"

/-- What a command finds around it. -/
structure Environment where
  /-- The variables that are set. -/
  bindings : List (String × String) := []
  /-- The text of the file at a path. -/
  read : String → Except ReadFault (List Char)

namespace Environment

/-- The value of a variable. -/
def valueOf? (env : Environment) (name : String) : Option String :=
  env.bindings.lookup name

/-- Whether there is anything at a path. -/
def exists? (env : Environment) (path : String) : Bool :=
  match env.read path with
  | .error .missing | .error .notDirectory => false
  | _ => true

end Environment

/-! ## Directories -/

/-- The parts of a path between its slashes. -/
def pathParts : List Char → List String
  | [] => [""]
  | '/' :: cs => "" :: pathParts cs
  | c :: cs =>
    match pathParts cs with
    | [] => [c.toString]
    | part :: rest => (c.toString ++ part) :: rest

/-- Whether a part of a path stays where it is. -/
def staysHere (part : String) : Bool :=
  part = "" || part = "."

/-- Text files by their paths, as they lie in a directory and in directories below it. -/
abbrev Directory : Type :=
  List (List String × List Char)

namespace Directory

/-- A directory with files at the given paths. -/
def ofFiles (files : List (String × String)) : Directory :=
  files.map fun (path, text) =>
    ((pathParts path.toList).filter fun part => !staysHere part, text.toList)

/-- What lies at a place: a file, a directory, or nothing. -/
def entry (d : Directory) (place : List String) : Except ReadFault (List Char) :=
  match d.lookup place with
  | some text => .ok text
  | none =>
    if place = [] || d.any fun (path, _) => place.isPrefixOf path then .error .directory
    else .error .missing

/-- Follows a path from a place. Nothing is known of what lies outside. -/
def follow (d : Directory) (place : List String) : List String → Except ReadFault (List Char)
  | [] => d.entry place
  | part :: rest =>
    match d.entry place with
    | .ok _ => .error .notDirectory
    | .error .directory =>
      if staysHere part then d.follow place rest
      else if part = ".." then
        if place = [] then .error (if rest.all (· = "..") then .directory else .missing)
        else d.follow place.dropLast rest
      else d.follow (place ++ [part]) rest
    | .error fault => .error fault

/-- Reads the file at a path. -/
def read (d : Directory) (path : String) : Except ReadFault (List Char) :=
  match path.toList with
  | [] => .error .missing
  | '/' :: cs => .error (if (pathParts cs).all staysHere then .directory else .missing)
  | cs => d.follow [] (pathParts cs)

end Directory

end ShellQuery.CommandLine
