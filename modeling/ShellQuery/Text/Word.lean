/-
  ShellQuery.Text.Word

  The character classes of names. A word character is what a name may hold in a call shape; an
  identifier character is what an unquoted key or a keyword may hold. The two differ: combining
  marks belong to words only, superscripts and fractions to identifiers only, and so do the
  characters that the newest edition of the Unicode standard added.
-/
import ShellQuery.Text.Mark
import ShellQuery.Text.Numeric
import ShellQuery.Text.Recent

namespace ShellQuery.Text

/-- Code points of the category `Pc`, the underscore and its relatives. -/
def connectorRanges : List (Nat × Nat) :=
  [(95, 95), (8255, 8256), (8276, 8276), (65075, 65076), (65101, 65103), (65343, 65343)]

/-- The zero-width joiner and non-joiner. -/
def joinControlRanges : List (Nat × Nat) :=
  [(8204, 8205)]

/-- A decimal digit of any script, of those that edition 16.0 has. -/
def isWordDigit (c : Char) : Bool :=
  isDecimalDigit c && !isRecent c

/-- A letter, mark, decimal digit, connector or joiner, of those that edition 16.0 has. -/
def isWord (c : Char) : Bool :=
  !isRecent c && (isAlphabetic c || isMark c || isDecimalDigit c ||
    inRanges connectorRanges c.toNat || inRanges joinControlRanges c.toNat)

/-- An ASCII letter. -/
def isAsciiLetter (c : Char) : Bool :=
  ('a' ≤ c && c ≤ 'z') || ('A' ≤ c && c ≤ 'Z')

/-- An ASCII digit. -/
def isAsciiDigit (c : Char) : Bool :=
  '0' ≤ c && c ≤ '9'

/-- An ASCII letter or digit. -/
def isAsciiAlphanumeric (c : Char) : Bool :=
  isAsciiLetter c || isAsciiDigit c

/-! ## Names in call shapes -/

/-- What a collection or method name may start with. -/
def isNameStart (c : Char) : Bool :=
  isAsciiLetter c || c = '_' || c = '$'

/-- What a method name may go on with. -/
def isNameRest (c : Char) : Bool :=
  isWord c || c = '$'

/-- What a part of a collection name may go on with. -/
def isCollectionRest (c : Char) : Bool :=
  isNameRest c || c = '-'

/-- What the name of a chained call or of a path step is made of. -/
def isStepChar (c : Char) : Bool :=
  isAsciiAlphanumeric c || c = '_' || c = '$'

/-! ## Identifiers in arguments -/

/-- What a keyword may start with. -/
def isIdentStart (c : Char) : Bool :=
  isAlphabetic c || c = '_' || c = '$'

/-- What a keyword is made of. -/
def isIdentChar (c : Char) : Bool :=
  isAlphanumeric c || c = '_' || c = '$'

/-- What an unquoted key is made of. -/
def isKeyChar (c : Char) : Bool :=
  isIdentChar c || c = '.'

end ShellQuery.Text
