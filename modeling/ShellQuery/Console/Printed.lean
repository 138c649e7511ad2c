/-
  ShellQuery.Console.Printed

  What is printed: text on the standard output, which holds results only, and text on the standard
  error, which holds everything meant for the person at the terminal.
-/

namespace ShellQuery.Console

/-- Text for the standard output and for the standard error. -/
structure Printed where
  out : String := ""
  err : String := ""
deriving DecidableEq, Repr, Inhabited

namespace Printed

/-- One text after another, on each output. -/
def append (a b : Printed) : Printed :=
  ⟨a.out ++ b.out, a.err ++ b.err⟩

instance : Append Printed := ⟨append⟩

theorem empty_append (a : Printed) : {} ++ a = a := by
  change mk ("" ++ a.out) ("" ++ a.err) = a
  rw [String.empty_append, String.empty_append]

theorem append_assoc (a b c : Printed) : a ++ b ++ c = a ++ (b ++ c) := by
  change mk (a.out ++ b.out ++ c.out) (a.err ++ b.err ++ c.err) =
    mk (a.out ++ (b.out ++ c.out)) (a.err ++ (b.err ++ c.err))
  rw [String.append_assoc, String.append_assoc]

/-- Lines, each with a line feed at its end. -/
def lines (ls : List String) : String :=
  String.join (ls.map (· ++ "\n"))

/-- Lines of a result. -/
def result (ls : List String) : Printed :=
  { out := lines ls }

/-- Lines for the person at the terminal. -/
def remark (ls : List String) : Printed :=
  { err := lines ls }

end Printed

/-! ## Styles -/

/-- A text in one of the terminal's styles, by the number of the style. -/
def styled (style : Nat) (s : String) : String :=
  "\x1b[" ++ toString style ++ "m" ++ s ++ "\x1b[0m"

def bold (s : String) : String :=
  styled 1 s

def red (s : String) : String :=
  styled 31 s

def green (s : String) : String :=
  styled 32 s

def cyan (s : String) : String :=
  styled 36 s

def grey (s : String) : String :=
  styled 90 s

end ShellQuery.Console
