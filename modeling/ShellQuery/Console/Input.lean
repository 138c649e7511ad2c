/-
  ShellQuery.Console.Input

  What a line asks for. A line that begins with a slash is a command, whose name ends at the first
  space; every other line that is not blank is a query.
-/
import ShellQuery.Text.Blank

namespace ShellQuery.Console

open Text

/-- What a line asks for. -/
inductive Input where
  | nothing
  | query (text : List Char)
  | help
  | quit
  | clear
  /-- To select the target that is named first, or to show the one that is selected. -/
  | select (arguments : List Char)
  | targets
  | inspect (query : List Char)
  | probe
  | close
  | unknown (name : List Char)
deriving DecidableEq, Repr

namespace Input

/-- The command with a name and the text after it. -/
def ofCommand (name arguments : List Char) : Input :=
  match String.ofList name with
  | "exit" | "quit" => .quit
  | "help" | "h" | "?" => .help
  | "clear" | "cls" => .clear
  | "target" | "use" => .select arguments
  | "targets" => .targets
  | "inspect" => .inspect arguments
  | "probe" => .probe
  | "close" => .close
  | _ => .unknown name

/-- What a line asks for. A slash alone asks for help. -/
def ofLine (line : List Char) : Input :=
  match trim line with
  | [] => .nothing
  | ['/'] => .help
  | '/' :: command =>
    ofCommand (command.takeWhile (· ≠ ' ')) (trim ((command.dropWhile (· ≠ ' ')).drop 1))
  | text => .query text

/-- The first word of a text, or the empty one. -/
def firstWord (cs : List Char) : List Char :=
  (trimStart cs).takeWhile fun c => !isBlank c

end Input

end ShellQuery.Console
