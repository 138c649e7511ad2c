/-
  ShellQuery.CommandLine

  What the program does for a command: it prints a result and ends with a status. A query that
  fails, and a file that cannot be used, end with status 1; arguments that make no sense with
  status 2.

  The store is a parameter. A query text that is asked for is read before the target file.
-/
import ShellQuery.Call
import ShellQuery.CommandLine.Invocation
import ShellQuery.Console.Conversation

namespace ShellQuery.CommandLine

open Console

/-- How a run of the program ends. -/
structure Ending where
  status : Nat := 0
  printed : Printed := {}
deriving DecidableEq, Repr

/-- Why a command comes to an end before it has done anything. -/
inductive Fault where
  | noQuery
  | queryFile (fault : ReadFault)
  | targetFile (path : String) (fault : ReadFault)
  | badTargetFile (message : String)
deriving DecidableEq, Repr

namespace Fault

/-- The message of a fault, and that of what caused it. -/
def messages : Fault → String × Option String
  | .noQuery => ("provide a query or --file", none)
  | .queryFile fault => (fault.message, none)
  | .targetFile path fault =>
    ("Failed to read target file " ++ path ++ ": " ++ fault.message, some fault.message)
  | .badTargetFile message => ("Invalid target file: " ++ message, some message)

/-- What is printed for a fault. -/
def report (f : Fault) : Printed :=
  match f.messages with
  | (message, none) => .remark ["Error: " ++ message]
  | (message, some cause) =>
    .remark ["Error: " ++ message, "", "Caused by:", "    " ++ cause]

end Fault

/-- The ending of a command that fails. -/
def failed (printed : Printed) : Ending :=
  ⟨1, printed⟩

/-- What is done with what was read, if it could be read. -/
def orReport {α : Type} (r : Except Fault α) (go : α → Ending) : Ending :=
  match r with
  | .error fault => failed fault.report
  | .ok a => go a

namespace Invocation

/-! ## Reading -/

/-- The registered targets. Where there is no target file, there are none. -/
def registry (i : Invocation) (env : Environment) : Except Fault Registry :=
  let path := i.resolveTargets env
  if env.exists? path then
    match env.read path with
    | .error fault => .error (.targetFile path fault)
    | .ok text => (Registry.parse text).mapError fun fault => .badTargetFile (fault.message text)
  else .ok []

/-- The text of a query. -/
def queryText (env : Environment) : QuerySource → Except Fault (List Char)
  | .text query => .ok query.toList
  | .file path => (env.read path).mapError .queryFile
  | .nowhere => .error .noQuery

/-! ## Commands -/

variable {σ : Type} (store : Store σ) (init : σ) (env : Environment) (now : Int64)

/-- An executor for the registered targets. -/
def executor (i : Invocation) : Except Fault (Executor σ) :=
  (i.registry env).map fun registry => { registry, config := i.config, store := init }

/-- Runs a query and prints the result. -/
def runQuery (i : Invocation) (target : String) (source : QuerySource) : Ending :=
  orReport (do return (← queryText env source, ← i.executor init env)) fun (query, x) =>
    let (_, r) := x.execute store now { target, query }
    { status := if r.isSuccess then 0 else 1, printed := .result [r.toJson.written] }

/-- Prints what a query would run. -/
def inspectQuery (i : Invocation) (query : String) : Ending :=
  match inspect now i.config.findLimit query.toList with
  | .ok p => { printed := .result [p.toJson.written] }
  | .error e => failed (.remark ["Rejected: " ++ e.message])

/-- One line of the list of targets. -/
def targetLine (id : String) (t : Target) : String :=
  padRight 24 id ++ " " ++ padRight 40 t.redactedAddress ++ " " ++
    padRight 16 t.defaultNamespace ++ " " ++ (if t.active then "active" else "inactive")

/-- Lists the registered targets. -/
def listTargets (i : Invocation) : Ending :=
  orReport (i.registry env) fun registry =>
    let remarks :=
      if registry.isEmpty then ["No targets registered in " ++ i.resolveTargets env] else []
    { printed := .remark remarks ++ .result (registry.map fun (id, t) => targetLine id t) }

/-- Connects to a target and lists its collections. -/
def probeTarget (i : Invocation) (target : String) : Ending :=
  orReport (i.executor init env) fun x =>
    match x.probe store target with
    | (_, .ok names) =>
      { printed := .result <|
          ("Connected to '" ++ target ++ "' (" ++ toString names.length ++ " collections)") ::
            names.map ("  " ++ ·) }
    | (_, .error e) => failed (.remark ["Probe failed: " ++ e.message])

/-- Begins a conversation at the console. -/
def startConsole (i : Invocation) (target : Option String) :
    Except Fault (Conversation σ × Printed) :=
  (i.executor init env).map fun x => Conversation.start x target

/-- Does what a command asks for, with the given lines to read. -/
def perform (i : Invocation) (input : List (List Char)) : Ending :=
  match i.command with
  | .run target source => i.runQuery store init env now target source
  | .inspect query => i.inspectQuery now query
  | .targets => i.listTargets env
  | .probe target => i.probeTarget store init env target
  | .repl target =>
    orReport (i.startConsole init env target) fun (x, printed) =>
      { printed := printed ++ x.transcript store now input }

end Invocation

/-! ## Refused arguments -/

/-- What the arguments may be. -/
def usage : List String := [
  "Usage: querygate [OPTIONS] run --target <TARGET> [QUERY | --file <FILE>]",
  "       querygate [OPTIONS] inspect <QUERY>",
  "       querygate [OPTIONS] targets",
  "       querygate [OPTIONS] probe --target <TARGET>",
  "       querygate [OPTIONS] repl [--target <TARGET>]",
  "       querygate --version"]

/-- The ending for arguments that no command comes of. -/
def Refusal.ending : Refusal → Ending
  | .version => { printed := .result ["querygate " ++ Console.version] }
  | .misuse => ⟨2, .remark usage⟩

end ShellQuery.CommandLine
