/-
  ShellQuery.Console.Conversation

  Conversations at the console: line by line, queries run against the selected target and commands
  are obeyed. A target is selected only if it is registered, and only the selected target is ever
  connected to.
-/
import ShellQuery.Console.Completion
import ShellQuery.Console.Input
import ShellQuery.Console.Printed
import ShellQuery.Console.Typed
import ShellQuery.Executor
import ShellQuery.Json.Written

namespace ShellQuery.Console

/-- The version of the program. -/
def version : String := "0.1.0"

/-- A conversation at the console, with the executor that it runs queries on. -/
structure Conversation (σ : Type) where
  executor : Executor σ
  /-- The target that queries run against. -/
  selected : Option String := none

namespace Conversation

variable {σ : Type} (store : Store σ)

/-! ## Fixed texts -/

/-- What is printed before the first prompt. -/
def greeting : Printed :=
  .remark [
    "",
    "  " ++ green "◉" ++ " " ++ bold ("querygate v" ++ version) ++ " " ++
      grey "- shell queries, one reviewed path",
    "",
    "    Type a query like " ++ cyan "db.users.find()" ++ ", " ++ cyan "/" ++ " for commands, " ++
      grey "Tab" ++ " to complete, " ++ grey "/exit" ++ " to quit.",
    ""]

/-- What is printed at the end. -/
def farewell : Printed :=
  .remark ["  " ++ grey "✨" ++ " Goodbye!"]

/-- The list of commands. -/
def help : Printed :=
  .remark <|
    ["", "  Commands:", ""] ++
    commands.map (fun c => "    " ++ padRight 18 c.name ++ " " ++ c.description) ++
    ["",
      "  Anything not starting with '/' runs as a query on the selected target.",
      "  Tip: Tab completion works for commands, target ids and collection methods.",
      ""]

/-- What clears a terminal. -/
def clear : Printed :=
  { err := "\x1b[2J\x1b[H" }

/-- The prompt, which names the selected target. -/
def prompt (x : Conversation σ) : Printed :=
  { out := " " ++ cyan (x.selected.getD "querygate" ++ ">") ++ " " }

/-! ## Targets -/

/-- Selects the target that is named first in a text, or shows the one that is selected. -/
def select (x : Conversation σ) (arguments : List Char) : Conversation σ × Printed :=
  let id := String.ofList (Input.firstWord arguments)
  if id = "" then
    match x.selected with
    | some current => (x, .remark ["  Current target: " ++ current])
    | none => (x, .remark ["  Usage: /target <id>"])
  else
    match x.executor.registry.find? id with
    | some t =>
      ({ x with selected := some id },
        .remark ["  Target: " ++ id ++ " (" ++ t.redactedAddress ++ " / " ++ t.defaultNamespace ++
          ")" ++ (if t.active then "" else " [inactive]")])
    | none => (x, .remark ["  Unknown target '" ++ id ++ "'. Type /targets to list them."])

/-- One line of the list of targets. The selected one has a star. -/
def targetLine (selected : Option String) (id : String) (t : Target) : String :=
  "  " ++ (if selected = some id then "*" else " ") ++ " " ++ padRight 24 id ++ " " ++
    padRight 40 t.redactedAddress ++ " " ++ t.defaultNamespace

/-- The list of targets. -/
def listTargets (x : Conversation σ) : Printed :=
  let registry := x.executor.registry
  .remark <|
    [""] ++ (if registry.isEmpty then ["  No targets registered."] else []) ++
    registry.map (fun (id, t) => targetLine x.selected id t) ++ [""]

/-! ## Queries -/

/-- What a query would run. -/
def preview (x : Conversation σ) (now : Int64) (query : List Char) : Printed :=
  if query = [] then .remark ["  Usage: /inspect <query>"]
  else
    match inspect now x.executor.config.findLimit query with
    | .ok p => .result [p.toJson.written]
    | .error e => .remark ["  Rejected: " ++ e.message]

/-- The data of a result and the number of its rows, or the reason of a failure. -/
def showResult : ExecutionResult → Printed
  | .success data elapsedMillis rowCount =>
    .result [data.written] ++
      .remark ["  " ++ grey (toString rowCount ++ " row(s) in " ++ toString elapsedMillis ++ " ms")]
  | .failure kind message => .remark ["  " ++ red kind.name ++ ": " ++ message]

/-- Runs a query against the selected target. -/
def query (x : Conversation σ) (now : Int64) (text : List Char) : Conversation σ × Printed :=
  match x.selected with
  | none => (x, .remark ["  No target selected. Use /target <id> first."])
  | some target =>
    let (executor, r) := x.executor.execute store now { target, query := text }
    ({ x with executor }, showResult r)

/-- Connects to the selected target and lists its collections. -/
def probe (x : Conversation σ) : Conversation σ × Printed :=
  match x.selected with
  | none => (x, .remark ["  No target selected. Use /target <id> first."])
  | some target =>
    match x.executor.probe store target with
    | (executor, .ok names) =>
      ({ x with executor }, .remark <|
        ["", "  " ++ toString names.length ++ " collection(s) on '" ++ target ++ "':"] ++
          names.map ("    " ++ ·) ++ [""])
    | (executor, .error e) => ({ x with executor }, .remark ["  Probe failed: " ++ e.message])

/-- Closes the connection to the selected target. -/
def close (x : Conversation σ) : Conversation σ × Printed :=
  match x.selected with
  | none => (x, .remark ["  No target selected."])
  | some target =>
    let (executor, wasOpen) := x.executor.close store target
    ({ x with executor }, .remark <|
      if wasOpen then ["  Closed connection to '" ++ target ++ "'."]
      else ["  No open connection to '" ++ target ++ "'."])

/-! ## Lines -/

/-- Does what a line asks for, except for quitting. -/
def answer (x : Conversation σ) (now : Int64) : Input → Conversation σ × Printed
  | .nothing | .quit => (x, {})
  | .query text => x.query store now text
  | .help => (x, help)
  | .clear => (x, clear)
  | .select arguments => x.select arguments
  | .targets => (x, x.listTargets)
  | .inspect query => (x, x.preview now query)
  | .probe => x.probe store
  | .close => x.close store
  | .unknown name =>
    (x, .remark ["  Unknown command '/" ++ .ofList name ++ "'. Type /help for commands."])

/-- Begins a conversation, with a target to select if one is given. -/
def start (executor : Executor σ) (target : Option String) : Conversation σ × Printed :=
  let x : Conversation σ := { executor }
  match target with
  | none => (x, greeting)
  | some id =>
    let (x, printed) := x.select id.toList
    (x, greeting ++ printed)

/-- Answers a line, or the end of the input. The conversation is over after a line that quits and
    after the end. -/
def respond (x : Conversation σ) (now : Int64) (line : Option (List Char)) :
    Option (Conversation σ) × Printed :=
  match line.map fun l => Input.ofLine (typed l) with
  | none | some .quit => (none, farewell)
  | some input =>
    let (x, printed) := x.answer store now input
    (some x, printed)

/-- What is printed where the given lines are all there is to read. -/
def transcript (x : Conversation σ) (now : Int64) : List (List Char) → Printed
  | [] => x.prompt ++ (x.respond store now none).2
  | line :: rest =>
    match x.respond store now (some line) with
    | (none, printed) => x.prompt ++ printed
    | (some y, printed) => x.prompt ++ printed ++ y.transcript now rest

end Conversation

end ShellQuery.Console
