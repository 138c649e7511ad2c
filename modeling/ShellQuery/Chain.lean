/-
  ShellQuery.Chain

  The calls chained to a primary call, such as `.limit(10).sort({a: 1})`. Narrow blanks may stand
  around their dots and parentheses, and semicolons and blanks may end the chain.
-/
import ShellQuery.Argument.Reader
import ShellQuery.Bracket

namespace ShellQuery

open Text

/-- A call chained to the primary call. -/
structure ChainedCall where
  method : String
  arguments : List Value

/-- A chained call that a `find` takes into account, with its first argument or null. -/
structure ChainedModifier where
  modifier : Modifier
  value : Value

namespace Chain

/-- Whether nothing but the end of a statement is left. -/
def isEnd (cs : List Char) : Bool :=
  cs.all fun c => c = ';' || isBlank c

/-- The error for text that is neither a call nor a path step. -/
def unexpected (cs : List Char) : QueryError :=
  .malformed (.unexpectedText (.ofList (cs.take 24)))

variable (now : Int64)

/-- Reads the calls in what is left of the text `whole`. Each call takes up a character, which
    bounds `fuel`. -/
def callsFrom (whole : List Char) (fuel : Nat) (cs : List Char) :
    Except QueryError (List ChainedCall) :=
  match fuel with
  | 0 => .ok []
  | fuel + 1 =>
    if isEnd cs then .ok []
    else match cs with
      | [] => .ok []
      | c :: rest =>
        if c ≠ '.' then .error (unexpected cs)
        else
          let rest := skipAsciiBlanks rest
          let method := rest.takeWhile isStepChar
          let after := skipAsciiBlanks (rest.dropWhile isStepChar)
          if method = [] then
            -- the character before the missing name is shown too
            .error (unexpected (whole.drop (whole.length - rest.length - 1)))
          else match after with
            | [] => .error (.malformed (.notCalled (.ofList method)))
            | d :: inner =>
              if d ≠ '(' then .error (.malformed (.notCalled (.ofList method)))
              else match close? inner with
                | none =>
                  .error (.unbalanced (byteLength (whole.take (whole.length - after.length))))
                | some cut => do
                  let arguments ← parseShellArguments now cut.inside
                  let calls ← callsFrom whole fuel (skipAsciiBlanks cut.after)
                  .ok (⟨.ofList method, arguments⟩ :: calls)

/-- The calls chained to a primary call, by the text after it. -/
def calls (cs : List Char) : Except QueryError (List ChainedCall) :=
  callsFrom now cs (cs.length + 1) (skipAsciiBlanks cs)

/-- The modifiers among chained calls, in order. Other calls are dropped. -/
def modifiers (calls : List ChainedCall) : List ChainedModifier :=
  calls.filterMap fun call =>
    (Modifier.ofName? call.method).map fun m => ⟨m, call.arguments.head?.getD .null⟩

end Chain

end ShellQuery
