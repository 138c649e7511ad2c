/-
  ShellQuery.Bytes.Slicing

  The readers of a query as programs over the bytes of their text: the primary call (`tokenize?`), the
  calls chained to it (`scanChain?`) and paths (`parsePath?`). They move an offset along the bytes and
  slice the text between offsets, also one byte behind where they stand, for what an error shows.

  A slice fails where it would leave the text or part a character, and a program with a slice that
  fails gives nothing.
-/
import ShellQuery.Bytes.Scan
import ShellQuery.Call
import ShellQuery.Path

namespace ShellQuery.Bytes

open Text

/-! ## Slices -/

/-- Cuts a text at a byte offset. -/
def cut? : Nat → List Char → Option (List Char × List Char)
  | 0, cs => some ([], cs)
  | _ + 1, [] => none
  | n + 1, c :: cs =>
    if c.utf8Size ≤ n + 1 then
      (cut? (n + 1 - c.utf8Size) cs).map fun (front, back) => (c :: front, back)
    else none

/-- The text from a byte offset on. -/
def suffix? (text : List Char) (start : Nat) : Option (List Char) :=
  (cut? start text).map Prod.snd

/-- The text between two byte offsets. -/
def slice? (text : List Char) (start stop : Nat) : Option (List Char) := do
  let (front, _) ← cut? stop text
  suffix? front start

/-- The offset before another one. -/
def stepBack? : Nat → Option Nat
  | 0 => none
  | n + 1 => some n

/-! ## Programs -/

/-- Cuts a call at the parenthesis that its front ends with and at the delimiter that matches it. -/
def ofHead? (text : List Char) (head : Call.Head) : Option (Except QueryError Call) := do
  let matched := text.take (text.length - head.rest.length)
  let openAt ← stepBack? (byteLength matched)
  match findClosing (utf8 text) openAt with
  | none => some (.error (.unbalanced openAt))
  | some closeAt => do
    let arguments ← slice? text (openAt + 1) closeAt
    let after ← suffix? text (closeAt + 1)
    some (.ok {
      shape := head.shape
      collection := head.collection.map .ofList
      method := .ofList head.method
      arguments := .ofList arguments
      remainder := .ofList (trim after) })

/-- The primary call of a query text. -/
def tokenize? (query : List Char) : Option (Except QueryError Call) :=
  let text := cleanQuery query
  if text = [] then some (.error (.malformed .emptyQuery))
  else match Call.head? text with
    | none => some (.error (.malformed (Call.unreadable text)))
    | some head =>
      if head.collection = some [] then some (.error (.malformed .unnamedCollection))
      else ofHead? text head

theorem le_skipWhile (p : Char → Bool) (bytes : List UInt8) (i : Nat) : i ≤ skipWhile p bytes i := by
  fun_induction skipWhile p bytes i with
  | case1 i hi hp ih => exact Nat.le_of_succ_le ih
  | case2 | case3 => exact Nat.le_refl _

/-- Whether a certain character stands at a byte. -/
def HasAt (bytes : List UInt8) (c : Char) (i : Nat) : Prop :=
  ∃ h : i < bytes.length, toChar bytes[i] = c

instance (bytes : List UInt8) (c : Char) (i : Nat) : Decidable (HasAt bytes c i) :=
  inferInstanceAs (Decidable (∃ _, _))

/-- What stands between the parentheses of a chained call, from the end of its method on, and the
    byte behind them. -/
def enclosed? (text method : List Char) (nameEnd : Nat) :
    Option (Except QueryError (List Char × Nat)) :=
  let openAt := skipWhile isAsciiBlank (utf8 text) nameEnd
  if ¬HasAt (utf8 text) '(' openAt then some (.error (.malformed (.notCalled (.ofList method))))
  else match findClosing (utf8 text) openAt with
    | none => some (.error (.unbalanced openAt))
    | some closeAt => do
      let inside ← slice? text (openAt + 1) closeAt
      some (.ok (inside, closeAt + 1))

theorem lt_of_enclosed? {text method inside : List Char} {i j : Nat}
    (h : enclosed? text method i = some (.ok (inside, j))) : i < j := by
  have hopen := le_skipWhile isAsciiBlank (utf8 text) i
  simp only [enclosed?] at h
  split at h
  · cases h
  split at h
  · cases h
  · rename_i closeAt hclose
    obtain ⟨inside, -, hj⟩ := Option.bind_eq_some_iff.1 h
    cases hj
    exact Nat.lt_succ_of_le (Nat.le_trans hopen (isCloser_of_closingAt hclose).1)

/-- Reads chained calls from a byte on. -/
def callsAt? (now : Int64) (text : List Char) (i : Nat) :
    Option (Except QueryError (List ChainedCall)) :=
  if _h : i < (utf8 text).length then do
    let rest ← suffix? text i
    if Chain.isEnd rest then some (.ok [])
    else if ¬HasAt (utf8 text) '.' i then some (.error (Chain.unexpected rest))
    else
      let nameStart := skipWhile isAsciiBlank (utf8 text) (i + 1)
      let nameEnd := skipWhile isStepChar (utf8 text) nameStart
      if nameEnd = nameStart then do
        let shown ← (stepBack? nameStart).bind (suffix? text)
        some (.error (Chain.unexpected shown))
      else do
        let method ← slice? text nameStart nameEnd
        match _henclosed : enclosed? text method nameEnd with
        | none => none
        | some (.error e) => some (.error e)
        | some (.ok (inside, callEnd)) =>
          match parseShellArguments now inside with
          | .error e => some (.error e)
          | .ok arguments => do
            let calls ← callsAt? now text (skipWhile isAsciiBlank (utf8 text) callEnd)
            some (calls.map (⟨.ofList method, arguments⟩ :: ·))
  else some (.ok [])
termination_by (utf8 text).length - i
decreasing_by
  have hname := le_skipWhile isAsciiBlank (utf8 text) (i + 1)
  have hend := le_skipWhile isStepChar (utf8 text) nameStart
  have hcall := lt_of_enclosed? _henclosed
  have hnext := le_skipWhile isAsciiBlank (utf8 text) callEnd
  omega

/-- The calls chained to a primary call. -/
def scanChain? (now : Int64) (text : List Char) : Option (Except QueryError (List ChainedCall)) :=
  callsAt? now text (skipWhile isAsciiBlank (utf8 text) 0)

/-- Reads the steps of a path from a byte on. -/
def stepsAt? (text : List Char) (i : Nat) : Option (Except QueryError Path) :=
  if _h : i < (utf8 text).length then do
    let rest ← suffix? text i
    if Chain.isEnd rest then some (.ok [])
    else if HasAt (utf8 text) '.' i then
      let stop := skipWhile isStepChar (utf8 text) (i + 1)
      if stop = i + 1 then do
        let shown ← (stepBack? (i + 1)).bind (suffix? text)
        some (.error (Chain.unexpected shown))
      else do
        let name ← slice? text (i + 1) stop
        let steps ← stepsAt? text stop
        some (steps.map (.field (.ofList name) :: ·))
    else if HasAt (utf8 text) '[' i then
      let stop := skipWhile isAsciiDigit (utf8 text) (i + 1)
      if stop = i + 1 ∨ ¬HasAt (utf8 text) ']' stop then do
        let shown ← (stepBack? (i + 1)).bind (suffix? text)
        some (.error (.malformed (.badIndex (.ofList shown))))
      else do
        let digits ← slice? text (i + 1) stop
        if 2 ^ (64 : Nat) ≤ digitsValue digits then
          some (.error (.malformed (.indexOutOfRange (.ofList digits))))
        else do
          let steps ← stepsAt? text (stop + 1)
          some (steps.map (.index (digitsValue digits) :: ·))
    else some (.error (Chain.unexpected rest))
  else some (.ok [])
termination_by (utf8 text).length - i
decreasing_by
  · have hstop := le_skipWhile isStepChar (utf8 text) (i + 1)
    omega
  · have hstop := le_skipWhile isAsciiDigit (utf8 text) (i + 1)
    omega

/-- A path that takes up the whole text. -/
def parsePath? (text : List Char) : Option (Except QueryError Path) :=
  stepsAt? text (skipWhile isAsciiBlank (utf8 text) 0)

end ShellQuery.Bytes
