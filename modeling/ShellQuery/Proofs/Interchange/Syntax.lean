/-
  ShellQuery.Proofs.Interchange.Syntax

  The grammar of JSON texts, and the values that its derivations denote.

    text     := ws value ws
    value    := object | array | string | number | 'true' | 'false' | 'null'
    array    := '[' (ws | items) ']'
    items    := ws value ws (',' ws value ws)*
    object   := '{' (ws | members) '}'
    members  := ws string ws ':' ws value ws (',' ws string ws ':' ws value ws)*

  The productions are relations, as those of `Grammar.Syntax` are. A character beyond `U+FFFF` may be
  written as an escaped surrogate pair, and a surrogate in no other way. Strings and all that has
  strings in it carry whether there is such a pair (`paired`).
-/
import ShellQuery.Proofs.Grammar.Syntax

namespace ShellQuery.Interchange

open Grammar

/-! ## Strings -/

/-- The characters that may be escaped with a backslash, each with what it stands for then. -/
def escapes : List (Char × Char) :=
  [('"', '"'), ('\\', '\\'), ('/', '/'), ('b', '\x08'), ('f', '\x0c'), ('n', '\n'), ('r', '\r'),
    ('t', '\t')]

/-- What stands between the quotes of a string, and the characters it denotes. -/
inductive Characters : Bool → List Char → List Char → Prop where
  | nil : Characters false [] []
  | plain {paired : Bool} {c : Char} {cs text : List Char} (hcontrol : 0x20 ≤ c.toNat)
    (hquote : c ≠ '"') (hbackslash : c ≠ '\\') (h : Characters paired cs text) :
    Characters paired (c :: cs) (c :: text)
  | escape {paired : Bool} {e c : Char} {cs text : List Char} (he : (e, c) ∈ escapes)
    (h : Characters paired cs text) : Characters paired ('\\' :: e :: cs) (c :: text)
  | unicode {paired : Bool} {ds cs text : List Char} {n : Nat} (hn : CodeUnit ds n)
    (hsurrogate : ¬(0xD800 ≤ n ∧ n ≤ 0xDFFF)) (h : Characters paired cs text) :
    Characters paired ('\\' :: 'u' :: (ds ++ cs)) (.ofNat n :: text)
  | pair {paired : Bool} {high low cs text : List Char} {h l : Nat} (hhigh : CodeUnit high h)
    (hlow : CodeUnit low l) (hh : 0xD800 ≤ h ∧ h ≤ 0xDBFF) (hl : 0xDC00 ≤ l ∧ l ≤ 0xDFFF)
    (hrest : Characters paired cs text) :
    Characters true ('\\' :: 'u' :: (high ++ '\\' :: 'u' :: (low ++ cs)))
      (.ofNat (0x10000 + (h - 0xD800) * 0x400 + (l - 0xDC00)) :: text)

/-- A string between its quotes. -/
inductive Quoted : Bool → List Char → String → Prop where
  | quoted {paired : Bool} {cs text : List Char} (h : Characters paired cs text) :
    Quoted paired ('"' :: (cs ++ ['"'])) (.ofList text)

/-! ## Numbers -/

/-- A minus sign or nothing, and whether it is a minus sign. -/
inductive Minus : List Char → Bool → Prop where
  | absent : Minus [] false
  | minus : Minus ['-'] true

/-- The digits before the point: a zero stands alone. -/
structure Whole (ds : List Char) : Prop where
  digits : Digits ds
  ne_nil : ds ≠ []
  zero : ds.head? = some '0' → ds = ['0']

/-- A number. Without a fraction and an exponent it is an integer, which is a double only beyond
    64 bits. -/
inductive Number : List Char → Value → Prop where
  | integer {s ds : List Char} {negative : Bool} (hsign : Minus s negative) (hwhole : Whole ds) :
    Number (s ++ ds) (integerValue negative (digitsValue ds))
  | double {s whole f fraction x : List Char} {negative : Bool} {e : Int} (hsign : Minus s negative)
    (hwhole : Whole whole) (hfraction : Fraction f fraction) (hdigit : f ≠ [] → fraction ≠ [])
    (hexponent : Exponent x e) (hwritten : f ≠ [] ∨ x ≠ []) :
    Number (s ++ (whole ++ (f ++ x)))
      (.double (.ofDecimal negative (digitsValue (whole ++ fraction)) (e - fraction.length)))

/-! ## Values -/

/-- White space: spaces, tabs, line feeds and carriage returns. -/
def Spaces (cs : List Char) : Prop :=
  ∀ c ∈ cs, c ∈ [' ', '\t', '\n', '\r']

/-- The words that are values. -/
def words : List (String × Value) :=
  [("true", .bool true), ("false", .bool false), ("null", .null)]

mutual

/-- A value. -/
inductive Datum : Bool → List Char → Value → Prop where
  | string {paired : Bool} {cs : List Char} {s : String} (h : Quoted paired cs s) :
    Datum paired cs (.string s)
  | number {cs : List Char} {v : Value} (h : Number cs v) : Datum false cs v
  | word {word : String} {v : Value} (h : (word, v) ∈ words) : Datum false word.toList v
  | emptyArray {gap : List Char} (hgap : Spaces gap) : Datum false ('[' :: (gap ++ [']'])) (.array [])
  | array {paired : Bool} {cs : List Char} {vs : List Value} (h : Items paired cs vs) :
    Datum paired ('[' :: (cs ++ [']'])) (.array vs)
  | emptyObject {gap : List Char} (hgap : Spaces gap) :
    Datum false ('{' :: (gap ++ ['}'])) (.document [])
  | object {paired : Bool} {cs : List Char} {written settled : Document}
    (h : Members paired cs written) (hsettles : Settles written settled) :
    Datum paired ('{' :: (cs ++ ['}'])) (.document settled)

/-- The values of an array, with commas between them. -/
inductive Items : Bool → List Char → List Value → Prop where
  | one {paired : Bool} {front cs back : List Char} {v : Value} (hfront : Spaces front)
    (h : Datum paired cs v) (hback : Spaces back) : Items paired (front ++ (cs ++ back)) [v]
  | more {first others : Bool} {front cs back rest : List Char} {v : Value} {vs : List Value}
    (hfront : Spaces front) (h : Datum first cs v) (hback : Spaces back)
    (hrest : Items others rest vs) :
    Items (first || others) (front ++ (cs ++ (back ++ ',' :: rest))) (v :: vs)

/-- The members of an object, with commas between them. -/
inductive Members : Bool → List Char → Document → Prop where
  | one {key paired : Bool} {front k left right cs back : List Char} {name : String} {v : Value}
    (hfront : Spaces front) (hkey : Quoted key k name) (hleft : Spaces left)
    (hright : Spaces right) (h : Datum paired cs v) (hback : Spaces back) :
    Members (key || paired) (front ++ (k ++ (left ++ ':' :: (right ++ (cs ++ back))))) [(name, v)]
  | more {key first others : Bool} {front k left right cs back rest : List Char} {name : String}
    {v : Value} {written : Document} (hfront : Spaces front) (hkey : Quoted key k name)
    (hleft : Spaces left) (hright : Spaces right) (h : Datum first cs v) (hback : Spaces back)
    (hrest : Members others rest written) :
    Members (key || first || others)
      (front ++ (k ++ (left ++ ':' :: (right ++ (cs ++ (back ++ ',' :: rest))))))
      ((name, v) :: written)

end

/-- A text: one value with white space around it. -/
inductive JsonText : Bool → List Char → Value → Prop where
  | value {paired : Bool} {front cs back : List Char} {v : Value} (hfront : Spaces front)
    (h : Datum paired cs v) (hback : Spaces back) : JsonText paired (front ++ (cs ++ back)) v

end ShellQuery.Interchange
