/-
  ShellQuery.CommandLine.Invocation

  Commands with their settings, as the arguments give them. An option given after the command
  outweighs the same one before it.
-/
import ShellQuery.CommandLine.Argument
import ShellQuery.CommandLine.Environment
import ShellQuery.Config

namespace ShellQuery.CommandLine

/-- Where the text of a query comes from. -/
inductive QuerySource where
  | text (query : String)
  | file (path : String)
  | nowhere
deriving DecidableEq, Repr

/-- What the program is asked to do. -/
inductive Command where
  | run (target : String) (source : QuerySource)
  | inspect (query : String)
  | targets
  | probe (target : String)
  | repl (target : Option String)
deriving DecidableEq, Repr

namespace Command

/-- The options that a command has of its own. -/
def ownOptions : String → List OptionName
  | "run" => [.target, .file]
  | "probe" | "repl" => [.target]
  | _ => []

/-- The command with a name, from what was given after it. -/
def ofGiven (name : String) (given : Given) : Except Refusal Command :=
  let target := given.values.lookup .target
  match name, given.positional with
  | "run", positional =>
    match target, positional, given.values.lookup .file with
    | some target, [], none => .ok (.run target .nowhere)
    | some target, [], some path => .ok (.run target (.file path))
    | some target, [query], none => .ok (.run target (.text query))
    | _, _, _ => .error .misuse
  | "inspect", [query] => .ok (.inspect query)
  | "targets", [] => .ok .targets
  | "probe", [] => match target with
    | some target => .ok (.probe target)
    | none => .error .misuse
  | "repl", [] => .ok (.repl target)
  | _, _ => .error .misuse

end Command

/-- A command with its settings. -/
structure Invocation where
  command : Command
  /-- The path of the target file. -/
  targetsPath : Option String := none
  config : Config := {}
deriving DecidableEq, Repr

namespace Invocation

/-! ## Arguments -/

/-- The settings that options give. -/
def settings (values : List (OptionName × String)) : Config :=
  let usual : Config := {}
  { connectTimeout := ((values.lookup .connectTimeout).bind natural?).getD usual.connectTimeout
    deadline := ((values.lookup .deadline).bind natural?).getD usual.deadline
    findLimit := ((values.lookup .findLimit).bind integer?).getD usual.findLimit }

/-- What the arguments ask for. -/
def ofArguments (args : List String) : Except Refusal Invocation := do
  let program ← Level.scan ⟨OptionName.everywhere, true⟩ {} none args
  match program.rest with
  | [] => throw .misuse
  | name :: rest =>
    let options := OptionName.everywhere ++ Command.ownOptions name
    let given ← Level.scan ⟨options, false⟩ {} none rest
    let command ← Command.ofGiven name given
    let values := given.values ++ program.values
    return { command, targetsPath := values.lookup .targets, config := settings values }

/-! ## The target file -/

/-- The target file of the working directory. -/
def localTargets : String := ".querygate/targets.json"

/-- The directory of the user. -/
def home (env : Environment) : String :=
  ((env.valueOf? "HOME").or (env.valueOf? "USERPROFILE")).getD "."

/-- The path of the target file: the one that is asked for, else the one that a variable gives,
    else that of the working directory if there is one, else that of the user. -/
def resolveTargets (i : Invocation) (env : Environment) : String :=
  match i.targetsPath.or (env.valueOf? "QUERYGATE_TARGETS") with
  | some path => path
  | none => if env.exists? localTargets then localTargets else home env ++ "/" ++ localTargets

/-- Every file that may be read for a command. -/
def paths (i : Invocation) (env : Environment) : List String :=
  let query := match i.command with
    | .run _ (.file path) => [path]
    | _ => []
  query ++ (i.targetsPath.or (env.valueOf? "QUERYGATE_TARGETS")).toList ++
    [localTargets, home env ++ "/" ++ localTargets]

end Invocation

end ShellQuery.CommandLine
