/-
  ShellQuery.Span

  The literals of a text, by the bytes at which they begin and end. Two scans find them: the one of
  the arguments of a call by themselves (`spans`), and the search for the delimiter that closes the
  call, which passes over each literal on its way (`closing?`).
-/
import ShellQuery.Bracket

namespace ShellQuery

/-! ## The end of a literal -/

/-- Cuts what follows the opening delimiter of a literal behind the one that closes it. -/
def endLiteral? (z : Zone) : List Char → Option (List Char × List Char)
  | [] => none
  | c :: cs =>
    if (z.next c).isCode then some ([c], cs)
    else (endLiteral? (z.next c) cs).map fun (taken, rest) => (c :: taken, rest)

theorem length_of_endLiteral? {z : Zone} {cs taken rest : List Char}
    (h : endLiteral? z cs = some (taken, rest)) : rest.length < cs.length := by
  induction cs generalizing z taken with
  | nil => cases h
  | cons c cs ih =>
    rw [endLiteral?] at h
    split at h
    · cases h
      simp
    · obtain ⟨⟨taken', rest'⟩, htaken, heq⟩ := Option.map_eq_some_iff.1 h
      cases heq
      have hless := ih htaken
      rw [List.length_cons]
      omega

/-! ## The two scans -/

/-- A literal in a text, by the bytes at which it begins and ends. -/
structure Span where
  start : Nat
  stop : Nat
deriving DecidableEq, Repr

/-- The literals of what is left of a text from byte `offset` on, where `last` is the last character
    of code in front. One that is never closed runs to the end of the text. -/
def spansFrom (last : Option Char) (offset : Nat) (cs : List Char) : List Span :=
  match cs with
  | [] => []
  | c :: cs =>
    if Zone.opensLiteral last c then
      match _h : endLiteral? (.literal c false) cs with
      | none => [⟨offset, offset + byteLength (c :: cs)⟩]
      | some (taken, rest) =>
        ⟨offset, offset + byteLength (c :: taken)⟩ ::
          spansFrom (some c) (offset + byteLength (c :: taken)) rest
    else spansFrom (Zone.lastAfter last c) (offset + c.utf8Size) cs
termination_by cs.length
decreasing_by
  · exact Nat.lt_succ_of_lt (length_of_endLiteral? ‹_›)
  · exact Nat.lt_succ_self _

/-- The literals of a text. -/
def spans (text : List Char) : List Span :=
  spansFrom none 0 text

/-- Searches what is left of a text from byte `offset` on for the delimiter that brings the nesting
    back to zero: the byte at which it stands, and the literals that are passed over. -/
def closingFrom? (last : Option Char) (offset depth : Nat) (cs : List Char) :
    Option (Nat × List Span) :=
  match cs with
  | [] => none
  | c :: cs =>
    if Zone.opensLiteral last c then
      match _h : endLiteral? (.literal c false) cs with
      | none => none
      | some (taken, rest) =>
        (closingFrom? (some c) (offset + byteLength (c :: taken)) depth rest).map
          fun (closeAt, passed) => (closeAt, ⟨offset, offset + byteLength (c :: taken)⟩ :: passed)
    else if isOpener c then closingFrom? (some c) (offset + c.utf8Size) (depth + 1) cs
    else if isCloser c then
      if depth ≤ 1 then some (offset, [])
      else closingFrom? (some c) (offset + c.utf8Size) (depth - 1) cs
    else closingFrom? (Zone.lastAfter last c) (offset + c.utf8Size) depth cs
termination_by cs.length
decreasing_by
  · exact Nat.lt_succ_of_lt (length_of_endLiteral? ‹_›)
  all_goals exact Nat.lt_succ_self _

/-- The byte of the delimiter that closes a call, with the literals in between: `rest` follows the
    opening parenthesis, which stands at byte `openAt`. -/
def closing? (openAt : Nat) (rest : List Char) : Option (Nat × List Span) :=
  closingFrom? none openAt 0 ('(' :: rest)

end ShellQuery
