/-
  ShellQuery.CommandLine.Argument

  Arguments of the command line. Options have a value, which follows as the next argument or in the
  same one: `--name value`, `--name=value`, `-n value`, `-nvalue` or `-n=value`. An argument that
  begins with a dash is never taken as the value of the option before it, except for the dash
  alone. After `--` nothing is an option.

  Each level of the command line, the program's own and that of its command, is scanned from left to
  right. The first argument at fault decides, so that `--version` counts unless an argument before
  it is at fault.
-/
import ShellQuery.Number.Numeral

namespace ShellQuery.CommandLine

open Text

/-! ## Options -/

/-- The options, by what they set. -/
inductive OptionName where
  | targets
  | logLevel
  | connectTimeout
  | deadline
  | findLimit
  | target
  | file
deriving DecidableEq, Repr

namespace OptionName

/-- The long name of an option. -/
def long : OptionName → String
  | .targets => "targets"
  | .logLevel => "log-level"
  | .connectTimeout => "connect-timeout-ms"
  | .deadline => "deadline-ms"
  | .findLimit => "default-limit"
  | .target => "target"
  | .file => "file"

/-- The short name of an option. -/
def short? : OptionName → Option Char
  | .target => some 't'
  | .file => some 'f'
  | _ => none

/-- The options that are understood before the command and after it. -/
def everywhere : List OptionName :=
  [.targets, .logLevel, .connectTimeout, .deadline, .findLimit]

end OptionName

/-! ## Numbers -/

/-- The value of digits that are all there is. -/
def digits? (cs : List Char) : Option Nat :=
  if cs ≠ [] && cs.all isAsciiDigit then some (digitsValue cs) else none

/-- A natural number of 64 bits, with or without a plus sign. -/
def natural? (s : String) : Option Nat := do
  let n ← match s.toList with
    | '+' :: cs => digits? cs
    | cs => digits? cs
  if n < 2 ^ (64 : Nat) then some n else none

/-- An integer of 64 bits, with or without a sign. -/
def integer? (s : String) : Option Int64 := do
  let n : Int ← match s.toList with
    | '+' :: cs => (digits? cs).map Int.ofNat
    | '-' :: cs => (digits? cs).map fun n => -(n : Int)
    | cs => (digits? cs).map Int.ofNat
  if -2 ^ (63 : Nat) ≤ n && n < 2 ^ (63 : Nat) then some (.ofInt n) else none

/-- Whether an option takes a value. -/
def OptionName.takes (o : OptionName) (value : String) : Bool :=
  match o with
  | .connectTimeout | .deadline => (natural? value).isSome
  | .findLimit => (integer? value).isSome
  | .targets | .logLevel | .target | .file => true

/-! ## Arguments -/

/-- Why no command comes of the arguments. -/
inductive Refusal where
  /-- Only the version was asked for. -/
  | version
  | misuse
deriving DecidableEq, Repr

/-- An argument by its form. -/
inductive Argument where
  | plain (text : String)
  /-- Two dashes and nothing else. -/
  | separator
  | long (name : String) (value : Option String)
  | short (name : Char) (attached : List Char)
deriving DecidableEq, Repr

/-- The form of an argument. A value follows the first equals sign. -/
def Argument.ofString (s : String) : Argument :=
  match s.toList with
  | ['-', '-'] => .separator
  | '-' :: '-' :: cs =>
    let name := String.ofList (cs.takeWhile (· ≠ '='))
    match cs.dropWhile (· ≠ '=') with
    | [] => .long name none
    | _ :: value => .long name (some (.ofList value))
  | '-' :: c :: cs => .short c cs
  | _ => .plain s

/-- The value attached to a short name, if there is one. -/
def attachedValue? : List Char → Option String
  | [] => none
  | '=' :: value => some (.ofList value)
  | value => some (.ofList value)

/-! ## Levels -/

/-- What a level of the command line has. -/
structure Level where
  options : List OptionName
  /-- Whether a command follows, which begins the next level. -/
  hasCommand : Bool
deriving DecidableEq, Repr

/-- What was given at a level. -/
structure Given where
  values : List (OptionName × String) := []
  positional : List String := []
  /-- What begins with the command. -/
  rest : List String := []
deriving DecidableEq, Repr

namespace Level

/-- Takes the value of an option, which may be given only once. -/
def take (given : Given) (o : OptionName) (value : String) : Except Refusal Given :=
  if (given.values.lookup o).isSome || !o.takes value then .error .misuse
  else .ok { given with values := (o, value) :: given.values }

/-- Scans arguments, of which the first one may have to be the value of an option. -/
def scan (level : Level) (given : Given) (pending : Option OptionName) :
    List String → Except Refusal Given
  | [] => if pending.isSome then .error .misuse else .ok given
  | a :: rest =>
    match Argument.ofString a, pending with
    | .plain value, some o => do level.scan (← take given o value) none rest
    | _, some _ => .error .misuse
    | .plain text, none =>
      if level.hasCommand then .ok { given with rest := a :: rest }
      else level.scan { given with positional := given.positional ++ [text] } none rest
    | .separator, none =>
      if level.hasCommand then .error .misuse
      else .ok { given with positional := given.positional ++ rest }
    | .long name value, none =>
      if level.hasCommand && name = "version" then
        .error (if value.isSome then .misuse else .version)
      else
        match level.options.find? (·.long = name), value with
        | none, _ => .error .misuse
        | some o, none => level.scan given (some o) rest
        | some o, some value => do level.scan (← take given o value) none rest
    | .short name attached, none =>
      if level.hasCommand && name = 'V' then .error .version
      else
        match level.options.find? (·.short? = some name), attachedValue? attached with
        | none, _ => .error .misuse
        | some o, none => level.scan given (some o) rest
        | some o, some value => do level.scan (← take given o value) none rest

end Level

end ShellQuery.CommandLine
