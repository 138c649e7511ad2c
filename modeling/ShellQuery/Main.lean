/-
  ShellQuery.Main

  The command line program: it reads variables, files, the clock and the lines of the standard
  input, and prints what the command comes to.
-/
import ShellQuery.CommandLine.Unconnected
import Std.Time.DateTime.Timestamp

open ShellQuery CommandLine Console

namespace ShellQuery.Main

/-- Milliseconds since the epoch. -/
def currentMillis : IO Int64 := do
  let t ← Std.Time.Timestamp.now
  return .ofInt t.toMillisecondsSinceUnixEpoch.val

/-- Reads a file, or tells why it cannot be read. -/
def readText (path : String) : IO (Except ReadFault (List Char)) := do
  try
    let bytes ← IO.FS.readBinFile path
    return match String.fromUTF8? bytes with
      | some text => .ok text.toList
      | none => .error .notText
  catch e =>
    return .error <| match e with
      -- a directory can be opened, but not read
      | .inappropriateType none .. => .directory
      | .inappropriateType (some _) .. => .notDirectory
      | .permissionDenied .. => .denied
      | _ => .missing

/-- The variables that matter, as far as they are set. -/
def bindings : IO (List (String × String)) := do
  let found ← ["HOME", "USERPROFILE", "QUERYGATE_TARGETS"].mapM fun name => do
    return (← IO.getEnv name).map fun value => (name, value)
  return found.filterMap id

/-- What a command finds around it. -/
def environment (i : Invocation) : IO Environment := do
  let bare : Environment := { bindings := ← bindings, read := fun _ => .error .missing }
  let files ← (i.paths bare).mapM fun path => do return (path, ← readText path)
  return { bare with read := fun path => (files.lookup path).getD (.error .missing) }

/-- Prints on both outputs. -/
def print (p : Printed) : IO Unit := do
  (← IO.getStdout).putStr p.out
  (← IO.getStdout).flush
  (← IO.getStderr).putStr p.err

/-- Answers lines until the conversation is over. -/
partial def converse (i : Invocation) (x : Conversation Unit) : IO Unit := do
  print x.prompt
  let line ← (← IO.getStdin).getLine
  let line := if line.isEmpty then none else some line.toList
  let (next, printed) := x.respond i.unconnected (← currentMillis) line
  print printed
  match next with
  | some x => converse i x
  | none => return

/-- Prints how a command ends. -/
def conclude (e : Ending) : IO UInt32 := do
  print e.printed
  return e.status.toUInt32

/-- Does what a command asks for. -/
def perform (i : Invocation) : IO UInt32 := do
  let env ← environment i
  match i.command with
  | .repl target =>
    match i.startConsole () env target with
    | .error fault => conclude (failed fault.report)
    | .ok (x, printed) =>
      print printed
      converse i x
      return 0
  | _ => conclude (i.performUnconnected env (← currentMillis) [])

end ShellQuery.Main

def main (args : List String) : IO UInt32 :=
  match Invocation.ofArguments args with
  | .error refusal => Main.conclude refusal.ending
  | .ok i => Main.perform i
