/-
  ShellQuery.CommandLine.Unconnected

  Commands where no server can be reached. Every connection is given up when the time for it is
  over: a single command hears the store's own reason, which comes as the time ends, and a
  conversation hears that the time is over.
-/
import ShellQuery.CommandLine
import ShellQuery.Server.Connection

namespace ShellQuery.CommandLine.Invocation

/-- The store of a command. -/
def unconnected (i : Invocation) : Store Unit :=
  match i.command with
  | .repl _ => Server.disconnected i.config
  | _ => Server.unreachable i.config.connectTimeout

/-- Does what a command asks for where no server can be reached. -/
def performUnconnected (i : Invocation) (env : Environment) (now : Int64)
    (input : List (List Char)) : Ending :=
  i.perform i.unconnected () env now input

end ShellQuery.CommandLine.Invocation
