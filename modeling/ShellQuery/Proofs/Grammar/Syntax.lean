/-
  ShellQuery.Proofs.Grammar.Syntax

  The grammar of argument lists, and the values that its derivations denote.

    args    := ε | items ','?
    items   := value (',' value)*
    value   := object | array | string | number | regex | date | keyword
    object  := '{' fields '}'
    fields  := ε | members ','?
    members := key ':' value (',' key ':' value)*
    array   := '[' args ']'
    date    := 'new'? 'Date' '(' (string | integer)? ')'

  A production is a relation between the texts that derive from it and what they denote, with one
  constructor for each alternative. Blanks stand between tokens only: before and after a value and
  a key, inside empty brackets, and between the tokens of a date construction. `now` is the moment
  that a date construction without an argument denotes.
-/
import ShellQuery.Proofs.Reader

namespace ShellQuery.Grammar

open Text Argument

/-! ## Strings -/

/-- The character that a backslash and the given one stand for. -/
inductive Escape : Char → Char → Prop where
  | newline : Escape 'n' '\n'
  | tab : Escape 't' '\t'
  | carriageReturn : Escape 'r' '\r'
  | backspace : Escape 'b' '\x08'
  | formFeed : Escape 'f' '\x0c'
  | null : Escape '0' '\x00'
  | itself {c : Char} (h : c ∉ ['n', 't', 'r', 'b', 'f', '0', 'u']) : Escape c c

/-- Four hexadecimal digits and their number. -/
def CodeUnit (ds : List Char) (n : Nat) : Prop :=
  ∃ a b c d, ds.map hexDigit? = [some a, some b, some c, some d] ∧
    n = a * 16 ^ (3 : Nat) + b * 16 ^ (2 : Nat) + c * 16 + d

/-- What stands between two quotes, and the characters it denotes. -/
inductive StringBody (quote : Char) : List Char → List Char → Prop where
  | nil : StringBody quote [] []
  | plain {c : Char} {cs text : List Char} (hquote : c ≠ quote) (hbackslash : c ≠ '\\')
    (h : StringBody quote cs text) : StringBody quote (c :: cs) (c :: text)
  | escape {e c : Char} {cs text : List Char} (he : Escape e c) (h : StringBody quote cs text) :
    StringBody quote ('\\' :: e :: cs) (c :: text)
  | unicode {ds cs text : List Char} {n : Nat} (hn : CodeUnit ds n)
    (hsurrogate : ¬(0xD800 ≤ n ∧ n ≤ 0xDFFF)) (h : StringBody quote cs text) :
    StringBody quote ('\\' :: 'u' :: (ds ++ cs)) (.ofNat n :: text)

/-- A string between two quotes of one kind. -/
inductive StringLiteral : List Char → String → Prop where
  | quoted {q : Char} {cs text : List Char} (hq : q = '"' ∨ q = '\'') (h : StringBody q cs text) :
    StringLiteral (q :: (cs ++ [q])) (.ofList text)

/-! ## Regular expressions -/

/-- What stands between the brackets of a class. -/
inductive ClassBody : List Char → Prop where
  | nil : ClassBody []
  | plain {c : Char} {cs : List Char} (hc : c ∉ ['\\', ']']) (h : ClassBody cs) :
    ClassBody (c :: cs)
  | escape (c : Char) {cs : List Char} (h : ClassBody cs) : ClassBody ('\\' :: c :: cs)

/-- What stands between the slashes of a regular expression: a slash only escaped or in a class. -/
inductive RegexBody : List Char → Prop where
  | nil : RegexBody []
  | plain {c : Char} {cs : List Char} (hc : c ∉ ['\\', '/', '[']) (h : RegexBody cs) :
    RegexBody (c :: cs)
  | escape (c : Char) {cs : List Char} (h : RegexBody cs) : RegexBody ('\\' :: c :: cs)
  | bracketed {inside cs : List Char} (hinside : ClassBody inside) (h : RegexBody cs) :
    RegexBody ('[' :: (inside ++ ']' :: cs))

/-- A regular expression with its flags. It denotes its body as written, and its flags in order,
    each once. -/
inductive RegexLiteral : List Char → Value → Prop where
  | slashes {body flags options : List Char} (hbody : RegexBody body)
    (hflags : ∀ c ∈ flags, c ∈ ['i', 'm', 's', 'x', 'l', 'u'])
    (hmem : ∀ c, c ∈ options ↔ c ∈ flags) (hsorted : options.Pairwise (· < ·)) :
    RegexLiteral ('/' :: (body ++ '/' :: flags)) (.regex (.ofList body) (.ofList options))

/-! ## Numbers -/

/-- A sign or none, and whether it is a minus. -/
inductive Sign : List Char → Bool → Prop where
  | absent : Sign [] false
  | plus : Sign ['+'] false
  | minus : Sign ['-'] true

/-- A run of ASCII digits, which may be empty. -/
def Digits (ds : List Char) : Prop :=
  ∀ d ∈ ds, isAsciiDigit d = true

/-- A point with the digits after it, or nothing. -/
inductive Fraction : List Char → List Char → Prop where
  | absent : Fraction [] []
  | point {ds : List Char} (h : Digits ds) : Fraction ('.' :: ds) ds

/-- An integer, by its sign and its amount. -/
def signed (negative : Bool) (amount : Nat) : Int :=
  if negative then -amount else amount

/-- A power of ten with at least one digit, or nothing. -/
inductive Exponent : List Char → Int → Prop where
  | absent : Exponent [] 0
  | power {e : Char} {s ds : List Char} {negative : Bool} (he : e = 'e' ∨ e = 'E')
    (hsign : Sign s negative) (hdigits : Digits ds) (hne : ds ≠ []) :
    Exponent (e :: (s ++ ds)) (signed negative (digitsValue ds))

/-- The value of an integer: of the narrowest type that it fits, a double beyond 64 bits. -/
def integerValue (negative : Bool) (amount : Nat) : Value :=
  let n := signed negative amount
  if -2 ^ (31 : Nat) ≤ n ∧ n < 2 ^ (31 : Nat) then .int32 (.ofInt n)
  else if -2 ^ (63 : Nat) ≤ n ∧ n < 2 ^ (63 : Nat) then .int64 (.ofInt n)
  else .double (.ofDecimal negative amount 0)

/-- A number with an optional sign. A double has a point or an exponent, and a digit before the
    exponent; an infinity has a sign. -/
inductive NumberLiteral : List Char → Value → Prop where
  | integer {s ds : List Char} {negative : Bool} (hsign : Sign s negative) (hdigits : Digits ds)
    (hne : ds ≠ []) : NumberLiteral (s ++ ds) (integerValue negative (digitsValue ds))
  | double {s whole f fraction x : List Char} {negative : Bool} {e : Int}
    (hsign : Sign s negative) (hwhole : Digits whole) (hfraction : Fraction f fraction)
    (hexponent : Exponent x e) (hdigit : whole ++ fraction ≠ []) (hwritten : f ≠ [] ∨ x ≠ []) :
    NumberLiteral (s ++ (whole ++ (f ++ x)))
      (.double (.ofDecimal negative (digitsValue (whole ++ fraction)) (e - fraction.length)))
  | infinity {s : List Char} {negative : Bool} (hsign : Sign s negative) (hne : s ≠ []) :
    NumberLiteral (s ++ "Infinity".toList) (.double (.infinity negative))

/-! ## Words and dates -/

/-- The words that are values. -/
def keywords : List (String × Value) :=
  [("true", .bool true), ("false", .bool false), ("null", .null), ("undefined", .null),
    ("NaN", .double .nan), ("Infinity", .double (.infinity false))]

/-- What a date construction holds: nothing, a 64-bit integer without a plus sign, or a string with
    a date in it. -/
inductive DateArgument (now : Int64) : List Char → Int64 → Prop where
  | absent : DateArgument now [] now
  | millis {s ds : List Char} {negative : Bool} (hsign : Sign s negative) (hplus : s ≠ ['+'])
    (hdigits : Digits ds) (hne : ds ≠ [])
    (hlow : -2 ^ (63 : Nat) ≤ signed negative (digitsValue ds))
    (hhigh : signed negative (digitsValue ds) < 2 ^ (63 : Nat)) :
    DateArgument now (s ++ ds) (.ofInt (signed negative (digitsValue ds)))
  | text {cs : List Char} {s : String} {millis : Int} (h : StringLiteral cs s)
    (hdate : Date.parseMillis s.toList = some millis) : DateArgument now cs (.ofInt millis)

/-- The word `Date`, with the word `new` before it or without. -/
inductive DateWord : List Char → Prop where
  | call : DateWord "Date".toList
  | construct {gap : List Char} (hgap : Blanks gap) (hne : gap ≠ []) :
    DateWord ("new".toList ++ (gap ++ "Date".toList))

/-- A date construction. -/
inductive DateLiteral (now : Int64) : List Char → Value → Prop where
  | call {word front left argument right : List Char} {millis : Int64} (hword : DateWord word)
    (hfront : Blanks front) (hleft : Blanks left) (h : DateArgument now argument millis)
    (hright : Blanks right) :
    DateLiteral now (word ++ (front ++ '(' :: (left ++ (argument ++ (right ++ [')'])))))
      (.date millis)

/-! ## Values -/

/-- A value without brackets. -/
inductive Scalar (now : Int64) : List Char → Value → Prop where
  | string {cs : List Char} {s : String} (h : StringLiteral cs s) : Scalar now cs (.string s)
  | regex {cs : List Char} {v : Value} (h : RegexLiteral cs v) : Scalar now cs v
  | number {cs : List Char} {v : Value} (h : NumberLiteral cs v) : Scalar now cs v
  | keyword {word : String} {v : Value} (h : (word, v) ∈ keywords) : Scalar now word.toList v
  | date {cs : List Char} {v : Value} (h : DateLiteral now cs v) : Scalar now cs v

/-- The key of a member: a string, or key characters. -/
inductive Key : List Char → String → Prop where
  | string {cs : List Char} {s : String} (h : StringLiteral cs s) : Key cs s
  | plain {cs : List Char} (h : ∀ c ∈ cs, isKeyChar c = true) (hne : cs ≠ []) : Key cs (.ofList cs)

/-- Nothing, or a comma after the last of a list. -/
inductive Trailing : List Char → Prop where
  | absent : Trailing []
  | comma {gap : List Char} (h : Blanks gap) : Trailing (',' :: gap)

/-- The document that written members make up: each key where it is written first, with the value
    that is written last. -/
structure Settles (written settled : Document) : Prop where
  keys : settled.keys = written.keys.eraseDups
  last : ∀ key, settled.get? key = Document.get? key written.reverse

mutual

/-- A value. -/
inductive Literal (now : Int64) : List Char → Value → Prop where
  | scalar {cs : List Char} {v : Value} (h : Scalar now cs v) : Literal now cs v
  | array {cs : List Char} {vs : List Value} (h : Arguments now cs vs) :
    Literal now ('[' :: (cs ++ [']'])) (.array vs)
  | object {cs : List Char} {written settled : Document} (h : Fields now cs written)
    (hsettles : Settles written settled) : Literal now ('{' :: (cs ++ ['}'])) (.document settled)

/-- What stands between the brackets of an array, or takes up a whole text. -/
inductive Arguments (now : Int64) : List Char → List Value → Prop where
  | empty {gap : List Char} (hgap : Blanks gap) : Arguments now gap []
  | items {cs tail : List Char} {vs : List Value} (h : Items now cs vs) (htail : Trailing tail) :
    Arguments now (cs ++ tail) vs

/-- Values with commas between them. -/
inductive Items (now : Int64) : List Char → List Value → Prop where
  | one {front cs back : List Char} {v : Value} (hfront : Blanks front) (h : Literal now cs v)
    (hback : Blanks back) : Items now (front ++ (cs ++ back)) [v]
  | more {front cs back rest : List Char} {v : Value} {vs : List Value} (hfront : Blanks front)
    (h : Literal now cs v) (hback : Blanks back) (hrest : Items now rest vs) :
    Items now (front ++ (cs ++ (back ++ ',' :: rest))) (v :: vs)

/-- What stands between the braces of an object. -/
inductive Fields (now : Int64) : List Char → Document → Prop where
  | empty {gap : List Char} (hgap : Blanks gap) : Fields now gap []
  | members {cs tail : List Char} {written : Document} (h : Members now cs written)
    (htail : Trailing tail) : Fields now (cs ++ tail) written

/-- Keys and values with commas between them. -/
inductive Members (now : Int64) : List Char → Document → Prop where
  | one {front k left right cs back : List Char} {name : String} {v : Value}
    (hfront : Blanks front) (hkey : Key k name) (hleft : Blanks left) (hright : Blanks right)
    (h : Literal now cs v) (hback : Blanks back) :
    Members now (front ++ (k ++ (left ++ ':' :: (right ++ (cs ++ back))))) [(name, v)]
  | more {front k left right cs back rest : List Char} {name : String} {v : Value}
    {written : Document} (hfront : Blanks front) (hkey : Key k name) (hleft : Blanks left)
    (hright : Blanks right) (h : Literal now cs v) (hback : Blanks back)
    (hrest : Members now rest written) :
    Members now (front ++ (k ++ (left ++ ':' :: (right ++ (cs ++ (back ++ ',' :: rest))))))
      ((name, v) :: written)

end

end ShellQuery.Grammar
