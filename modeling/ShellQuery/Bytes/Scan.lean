/-
  ShellQuery.Bytes.Scan

  A text as its bytes in UTF-8, and the scans of it as loops over the bytes, each byte read as the
  character of its number. Every index is in range by the bound of its loop. In a literal a loop
  steps over a backslash and one more byte, be that a whole character or not, or no byte at all.
-/
import ShellQuery.Span

namespace ShellQuery.Bytes

open Text

variable {bytes : List UInt8} {d : Char} {prev : Option Char} {inClass : Bool} {i j depth : Nat}

/-! ## Bytes -/

/-- The bytes of a text in UTF-8. -/
def utf8 (cs : List Char) : List UInt8 :=
  cs.flatMap String.utf8EncodeChar

/-- A byte as the character of the same number, which for a byte below 128 is the ASCII character
    that it encodes. -/
def toChar (b : UInt8) : Char :=
  .ofNat b.toNat

/-! ## Loops -/

/-- Steps over the bytes of a class. -/
def skipWhile (p : Char → Bool) (bytes : List UInt8) (i : Nat) : Nat :=
  if h : i < bytes.length then
    if p (toChar bytes[i]) then skipWhile p bytes (i + 1) else i
  else i
termination_by bytes.length - i

/-- Steps to the end of a literal, from a byte inside it on. -/
def skipFrom (bytes : List UInt8) (delimiter : Char) (inClass : Bool) (i : Nat) : Option Nat :=
  if h : i < bytes.length then
    if toChar bytes[i] = '\\' then skipFrom bytes delimiter inClass (i + 2)
    else if delimiter = '/' ∧ toChar bytes[i] = '[' then skipFrom bytes delimiter true (i + 1)
    else if delimiter = '/' ∧ toChar bytes[i] = ']' then skipFrom bytes delimiter false (i + 1)
    else if toChar bytes[i] = delimiter ∧ inClass = false then some (i + 1)
    else skipFrom bytes delimiter inClass (i + 1)
  else none
termination_by bytes.length - i

/-- Steps over the literal that begins at a byte. -/
def skipLiteral (bytes : List UInt8) (i : Nat) (h : i < bytes.length) : Option Nat :=
  skipFrom bytes (toChar bytes[i]) false (i + 1)

theorem lt_of_skipFrom (h : skipFrom bytes d inClass i = some j) : i < j ∧ j ≤ bytes.length := by
  fun_induction skipFrom bytes d inClass i with
  | case1 inClass i hi hc ih =>
    have hless := ih h
    omega
  | case2 inClass i hi hc hopen ih =>
    have hless := ih h
    omega
  | case3 inClass i hi hc hopen hclose ih =>
    have hless := ih h
    omega
  | case4 inClass i hi hc hopen hclose hend =>
    cases h
    omega
  | case5 inClass i hi hc hopen hclose hend ih =>
    have hless := ih h
    omega
  | case6 inClass i hi => cases h

theorem lt_of_skipLiteral {hi : i < bytes.length} (h : skipLiteral bytes i hi = some j) :
    i < j ∧ j ≤ bytes.length := by
  have hless := lt_of_skipFrom h
  omega

/-- The literals from a byte on, where `prev` is the last character of code in front. One that is
    never closed runs to the end of the text. -/
def spansAt (bytes : List UInt8) (prev : Option Char) (i : Nat) : List Span :=
  if h : i < bytes.length then
    if Zone.opensLiteral prev (toChar bytes[i]) then
      match _hskip : skipLiteral bytes i h with
      | none => [⟨i, bytes.length⟩]
      | some stop => ⟨i, stop⟩ :: spansAt bytes (some (toChar bytes[i])) stop
    else spansAt bytes (Zone.lastAfter prev (toChar bytes[i])) (i + 1)
  else []
termination_by bytes.length - i
decreasing_by
  · have hless := lt_of_skipLiteral ‹_›
    omega
  · omega

/-- The literals of a text. -/
def literalSpans (bytes : List UInt8) : List Span :=
  spansAt bytes none 0

/-- Searches from a byte on for the delimiter that brings the nesting back to zero. -/
def closingAt (bytes : List UInt8) (prev : Option Char) (depth i : Nat) : Option Nat :=
  if h : i < bytes.length then
    if Zone.opensLiteral prev (toChar bytes[i]) then
      match _hskip : skipLiteral bytes i h with
      | none => none
      | some stop => closingAt bytes (some (toChar bytes[i])) depth stop
    else if isOpener (toChar bytes[i]) then
      closingAt bytes (some (toChar bytes[i])) (depth + 1) (i + 1)
    else if isCloser (toChar bytes[i]) then
      if depth ≤ 1 then some i else closingAt bytes (some (toChar bytes[i])) (depth - 1) (i + 1)
    else closingAt bytes (Zone.lastAfter prev (toChar bytes[i])) depth (i + 1)
  else none
termination_by bytes.length - i
decreasing_by
  · have hless := lt_of_skipLiteral ‹_›
    omega
  all_goals omega

/-- The delimiter that matches the one at a byte. -/
def findClosing (bytes : List UInt8) (openAt : Nat) : Option Nat :=
  closingAt bytes none 0 openAt

/-! ## Where the search for a delimiter ends -/

/-- The search ends at a closing delimiter. -/
theorem isCloser_of_closingAt (h : closingAt bytes prev depth i = some j) :
    i ≤ j ∧ ∃ hj : j < bytes.length, isCloser (toChar bytes[j]) = true := by
  fun_induction closingAt bytes prev depth i with
  | case1 => cases h
  | case2 prev depth i hi hopens stop hskip ih =>
    have hless := lt_of_skipLiteral hskip
    exact ⟨by have hle := (ih h).1; omega, (ih h).2⟩
  | case3 prev depth i hi hopens hopener ih => exact ⟨Nat.le_of_succ_le (ih h).1, (ih h).2⟩
  | case4 prev depth i hi hopens hopener hcloser hdepth =>
    cases h
    exact ⟨Nat.le_refl _, hi, hcloser⟩
  | case5 prev depth i hi hopens hopener hcloser hdepth ih =>
    exact ⟨Nat.le_of_succ_le (ih h).1, (ih h).2⟩
  | case6 prev depth i hi hopens hopener hcloser ih =>
    exact ⟨Nat.le_of_succ_le (ih h).1, (ih h).2⟩
  | case7 => cases h

end ShellQuery.Bytes
