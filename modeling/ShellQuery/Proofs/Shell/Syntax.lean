/-
  ShellQuery.Proofs.Shell.Syntax

  Argument lists as they are written in the shell: scalars, arrays and objects with blanks between
  their parts, and wrapper calls wherever a value may stand. A tree is written out with a choice of
  wrappers, those whose calls are written as the literals that stand for them; with none of them it
  is the text that was typed, with all of them the plain text.

  A scalar is any text that the reader takes for one value, and a key any text that it takes for a
  key, so trees make no claim of their own about what strings or numbers look like.
-/
import ShellQuery.Proofs.Reader

namespace ShellQuery.Shell

open Text Argument

/-! ## Leaves -/

/-- Blanks, possibly none. -/
structure Gap where
  text : List Char
  blank : Blanks text

/-- A string, regular expression, number, keyword or date. -/
structure Scalar where
  text : List Char
  read : ∀ now, ∃ v, value now 1 text = .ok (v, [])

/-- The key of a field. -/
structure Key where
  text : List Char
  read : ∃ name, key text = .ok (name, [])

/-- A payload between quotes. -/
structure Quoted where
  quote : Char
  content : List Char
  isQuote : Wrapper.isQuote quote = true
  nonempty : content ≠ []
  plain : ∀ c ∈ content, Wrapper.isQuote c = false ∧ c ≠ '\\'

def Quoted.text (x : Quoted) : List Char :=
  x.quote :: x.content ++ [x.quote]

/-- One or more ASCII digits. -/
structure Digits where
  text : List Char
  nonempty : text ≠ []
  digit : ∀ c ∈ text, isAsciiDigit c = true

/-- An integer, between quotes or not. -/
structure Whole where
  quote : Option Char
  negative : Bool
  digits : Digits
  isQuote : ∀ q ∈ quote, Wrapper.isQuote q = true

def Whole.literal (n : Whole) : List Char :=
  (if n.negative then ['-'] else []) ++ n.digits.text

def Whole.text (n : Whole) : List Char :=
  n.quote.toList ++ n.literal ++ n.quote.toList

/-- A number between quotes. -/
structure Decimal where
  quote : Char
  literal : List Char
  isQuote : Wrapper.isQuote quote = true
  read : ∃ v, number literal = .ok (v, [])

def Decimal.text (n : Decimal) : List Char :=
  n.quote :: n.literal ++ [n.quote]

/-! ## Wrapper calls -/

/-- What stands between the parentheses of a wrapper call. -/
inductive Call where
  | objectId (x : Quoted)
  | newObjectId
  | isoDate (x : Quoted) (valid : (Date.parseMillis x.content).isSome = true)
  | isoNow
  | numberLong (n : Whole)
  | numberInt (n : Whole)
  | numberDecimal (n : Decimal)
  | uuid (x : Quoted)
  | binData (kind : Digits) (left right : Gap) (x : Quoted)
  | timestamp (seconds : Digits) (left right : Gap) (increment : Digits)

namespace Call

def wrapper : Call → Wrapper
  | objectId _ => .objectId
  | newObjectId => .newObjectId
  | isoDate _ _ => .isoDate
  | isoNow => .isoNow
  | numberLong _ => .numberLong
  | numberInt _ => .numberInt
  | numberDecimal _ => .numberDecimal
  | uuid _ => .uuid
  | binData _ _ _ _ => .binData
  | timestamp _ _ _ _ => .timestamp

/-- The text between the parentheses, blanks at its ends aside. -/
def inner : Call → List Char
  | objectId x | isoDate x _ | uuid x => x.text
  | newObjectId | isoNow => []
  | numberLong n | numberInt n => n.text
  | numberDecimal n => n.text
  | binData kind left right x => kind.text ++ left.text ++ ',' :: right.text ++ x.text
  | timestamp seconds left right increment =>
    seconds.text ++ left.text ++ ',' :: right.text ++ increment.text

/-- The date construction with a given argument. -/
def dateOf (argument : List Char) : List Char :=
  ['n', 'e', 'w', ' ', 'D', 'a', 't', 'e', '('] ++ argument ++ [')']

/-- The object that stands for a timestamp. -/
def timestampOf (seconds increment : List Char) : List Char :=
  ['{', '"', 't', '"', ':', ' '] ++ seconds ++ [',', ' ', '"', 'i', '"', ':', ' '] ++ increment ++
    ['}']

/-- The plain literal that stands for a call. -/
def literal : Call → List Char
  | objectId x | uuid x | binData _ _ _ x => Wrapper.quote x.content
  | newObjectId => Wrapper.quote []
  | isoDate x _ => dateOf (Wrapper.quote x.content)
  | isoNow => dateOf []
  | numberLong n | numberInt n => n.literal
  | numberDecimal n => n.literal
  | timestamp seconds _ _ increment => timestampOf seconds.text increment.text

/-- The payload of a call that takes a text of any kind. -/
def payload? : Call → Option (List Char)
  | objectId x | uuid x | binData _ _ _ x => some x.content
  | _ => none

/-- What of a call may be between quotes. -/
def quoted : Call → List Char
  | objectId x | isoDate x _ | uuid x | binData _ _ _ x => x.content
  | numberLong n | numberInt n => n.literal
  | numberDecimal n => n.literal
  | newObjectId | isoNow | timestamp _ _ _ _ => []

end Call

/-- A wrapper call as it is written, with or without `new`. -/
structure Site where
  call : Call
  construct : Option Gap
  construct_ne_nil : ∀ gap ∈ construct, gap.text ≠ []
  beforeOpening : Gap
  afterOpening : Gap
  beforeClosing : Gap

namespace Site

/-- The text of a call from its opening parenthesis on. -/
def arguments (s : Site) : List Char :=
  '(' :: s.afterOpening.text ++ s.call.inner ++ s.beforeClosing.text ++ [')']

/-- The word `new` and the blanks after it. -/
def front (s : Site) : List Char :=
  match s.construct with
  | none => []
  | some gap => 'n' :: 'e' :: 'w' :: gap.text

def text (s : Site) : List Char :=
  s.front ++ s.call.wrapper.constructorName ++ s.beforeOpening.text ++ s.arguments

/-- The text of a call, or of the literal that stands for it if its wrapper is one of those. -/
def written (replaced : Wrapper → Bool) (s : Site) : List Char :=
  if replaced s.call.wrapper then s.call.literal else s.text

end Site

/-! ## Trees -/

mutual

/-- A value as it is written. -/
inductive Tree where
  | scalar (s : Scalar)
  | call (s : Site)
  | array (items : Items)
  | object (fields : Fields)

/-- Values with commas between them. A comma may follow the last. -/
inductive Items where
  | none (gap : Gap)
  | last (before : Gap) (v : Tree) (after : Gap)
  | more (before : Gap) (v : Tree) (after : Gap) (rest : Items)

/-- Keys and values with commas between them. A comma may follow the last. -/
inductive Fields where
  | none (gap : Gap)
  | last (before : Gap) (k : Key) (left right : Gap) (v : Tree) (after : Gap)
  | more (before : Gap) (k : Key) (left right : Gap) (v : Tree) (after : Gap) (rest : Fields)

end

mutual

/-- The text of a value, in which the calls of some wrappers are replaced. -/
def Tree.text (replaced : Wrapper → Bool) : Tree → List Char
  | .scalar s => s.text
  | .call s => s.written replaced
  | .array items => '[' :: items.text replaced ++ [']']
  | .object fields => '{' :: fields.text replaced ++ ['}']

def Items.text (replaced : Wrapper → Bool) : Items → List Char
  | .none gap => gap.text
  | .last before v after => before.text ++ (v.text replaced ++ after.text)
  | .more before v after rest =>
    before.text ++ (v.text replaced ++ (after.text ++ ',' :: rest.text replaced))

def Fields.text (replaced : Wrapper → Bool) : Fields → List Char
  | .none gap => gap.text
  | .last before k left right v after =>
    before.text ++ (k.text ++ (left.text ++ ':' :: (right.text ++ (v.text replaced ++ after.text))))
  | .more before k left right v after rest =>
    before.text ++ (k.text ++ (left.text ++ ':' :: (right.text ++
      (v.text replaced ++ (after.text ++ ',' :: rest.text replaced)))))

end

/-- A list of arguments as it was typed. -/
def Items.typed (items : Items) : List Char :=
  items.text fun _ => false

/-- A list of arguments with every wrapper call replaced by the literal that stands for it. -/
def Items.plain (items : Items) : List Char :=
  items.text fun _ => true

/-! ## Leaves of a tree -/

/-- What a tree is made of: scalars, with the blanks before them, keys and calls. -/
inductive Leaf where
  | scalar (before : Gap) (s : Scalar)
  | key (k : Key)
  | call (s : Site)

mutual

def Tree.leaves (before : Gap) : Tree → List Leaf
  | .scalar s => [.scalar before s]
  | .call s => [.call s]
  | .array items => items.leaves
  | .object fields => fields.leaves

def Items.leaves : Items → List Leaf
  | .none _ => []
  | .last before v _ => v.leaves before
  | .more before v _ rest => v.leaves before ++ rest.leaves

def Fields.leaves : Fields → List Leaf
  | .none _ => []
  | .last _ k _ right v _ => .key k :: v.leaves right
  | .more _ k _ right v _ rest => .key k :: (v.leaves right ++ rest.leaves)

end

namespace Leaf

/-- Whether a regular expression can be seen for what it is: no wide blank stands before it. -/
def Seen : Leaf → Prop
  | scalar before s => s.text.head? = some '/' → ∀ c ∈ before.text, isAsciiBlank c = true
  | key _ | call _ => True

/-- What of a leaf may be between quotes or slashes. -/
def quoted : Leaf → List Char
  | scalar _ s => s.text
  | key k => k.text
  | call s => s.call.quoted

/-- Whether a leaf is a call of the wrapper with a payload that, read as code, closes a call. -/
def Closes (w : Wrapper) : Leaf → Prop
  | call s => s.call.wrapper = w ∧
    ∃ payload ∈ s.call.payload?, (trimStart payload).head? = some ')'
  | scalar _ _ | key _ => False

end Leaf

/-- Whether a text has the name of a wrapper with an opening parenthesis after it. -/
def Opens (w : Wrapper) (cs : List Char) : Prop :=
  ∃ gap, Blanks gap ∧ w.constructorName ++ gap ++ ['('] <:+: cs

theorem Opens.mono {w : Wrapper} {cs ds : List Char} (h : Opens w cs) (hsub : cs <:+: ds) :
    Opens w ds := by
  obtain ⟨gap, hgap, hwithin⟩ := h
  exact ⟨gap, hgap, hwithin.trans hsub⟩

/-- Whether the calls of a wrapper are safe from literals before them: none has a payload that
    closes a call, or no literal opens a call of the wrapper. -/
def Items.Safe (items : Items) (w : Wrapper) : Prop :=
  (∀ leaf ∈ items.leaves, ¬ leaf.Closes w) ∨ ∀ leaf ∈ items.leaves, ¬ Opens w leaf.quoted

end ShellQuery.Shell
