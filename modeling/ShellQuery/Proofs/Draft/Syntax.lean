/-
  ShellQuery.Proofs.Draft.Syntax

  Argument lists whose wrapper calls have any payload. A draft is written like a list of shell
  values, but nothing is asked of what stands between the quotes of a call, so a rule may replace
  the call or leave it, and the reader may take or refuse what the rule made of it.

  `Items.Written` relates a draft to its texts in which some calls are replaced already, and
  `Items.skeletons` says what a draft looks like when it is read: its arrays and objects, with a
  null in the place of every scalar and of every call.
-/
import ShellQuery.Proofs.Lexeme
import ShellQuery.Proofs.Shell.Syntax

namespace ShellQuery

open Text Argument

/-! ## Skeletons -/

mutual

/-- A value with a null in the place of every scalar. -/
def Value.skeleton : Value → Value
  | .array items => .array (Value.skeletons items)
  | .document fields => .document (Value.fieldSkeletons fields)
  | _ => .null

def Value.skeletons : List Value → List Value
  | [] => []
  | v :: rest => v.skeleton :: Value.skeletons rest

def Value.fieldSkeletons : List (String × Value) → List (String × Value)
  | [] => []
  | (k, v) :: rest => (k, v.skeleton) :: Value.fieldSkeletons rest

end

/-- The skeleton of a document in which a key is set has the skeleton of the value at the key. -/
theorem Value.fieldSkeletons_insert (key : String) (v : Value) (d : Document) :
    Value.fieldSkeletons (d.insert key v) =
      Document.insert key v.skeleton (Value.fieldSkeletons d) := by
  induction d with
  | nil => rfl
  | cons field rest ih =>
    obtain ⟨k, w⟩ := field
    by_cases hk : k = key
    · simp [Document.insert, Value.fieldSkeletons, hk]
    · simp [Document.insert, Value.fieldSkeletons, hk, ih]

namespace Draft

open Shell (Gap Scalar Key Digits Whole)

/-! ## Wrapper calls -/

/-- Any text free of quotes and backslashes, between quotes. -/
structure Payload where
  quote : Char
  content : List Char
  isQuote : Wrapper.isQuote quote = true
  plain : ∀ c ∈ content, Wrapper.isQuote c = false ∧ c ≠ '\\'

def Payload.text (x : Payload) : List Char :=
  x.quote :: (x.content ++ [x.quote])

/-- The content of a payload that is not empty: no rule takes an empty one. -/
def Payload.content? (x : Payload) : Option (List Char) :=
  if x.content = [] then none else some x.content

/-- An integer, or any payload. -/
inductive Amount where
  | whole (n : Whole)
  | quoted (x : Payload)

namespace Amount

def text : Amount → List Char
  | whole n => n.text
  | quoted x => x.text

/-- The integer that a rule takes for the amount, if it takes one: a payload is taken whole. -/
def literal? : Amount → Option (List Char)
  | whole n => some n.literal
  | quoted x => (Wrapper.integer? x.content).bind fun (digits, rest) =>
    if rest = [] then some digits else none

end Amount

/-- What stands between the parentheses of a wrapper call. -/
inductive Call where
  | objectId (x : Payload)
  | newObjectId
  | isoDate (x : Payload)
  | isoNow
  | numberLong (n : Amount)
  | numberInt (n : Amount)
  | numberDecimal (x : Payload)
  | uuid (x : Payload)
  | binData (kind : Digits) (left right : Gap) (x : Payload)

namespace Call

def wrapper : Call → Wrapper
  | objectId _ => .objectId
  | newObjectId => .newObjectId
  | isoDate _ => .isoDate
  | isoNow => .isoNow
  | numberLong _ => .numberLong
  | numberInt _ => .numberInt
  | numberDecimal _ => .numberDecimal
  | uuid _ => .uuid
  | binData _ _ _ _ => .binData

/-- The text between the parentheses, blanks at its ends aside. -/
def inner : Call → List Char
  | objectId x | isoDate x | numberDecimal x | uuid x => x.text
  | newObjectId | isoNow => []
  | numberLong n | numberInt n => n.text
  | binData kind left right x => kind.text ++ left.text ++ ',' :: right.text ++ x.text

/-- What a rule puts in the place of the call, if one takes it. -/
def literal? : Call → Option (List Char)
  | objectId x | uuid x | binData _ _ _ x => x.content?.map Wrapper.quote
  | newObjectId => some (Wrapper.quote [])
  | isoDate x => x.content?.map fun content => Shell.Call.dateOf (Wrapper.quote content)
  | isoNow => some (Shell.Call.dateOf [])
  | numberLong n | numberInt n => n.literal?
  | numberDecimal x => x.content?

end Call

/-- A wrapper call as it is written, with or without `new`. -/
structure Site where
  call : Call
  construct : Option Gap
  construct_ne_nil : ∀ gap ∈ construct, gap.text ≠ []
  beforeOpening : Gap
  afterOpening : Gap
  beforeClosing : Gap

namespace Site

/-- The word `new` and the blanks after it. -/
def front (s : Site) : List Char :=
  match s.construct with
  | none => []
  | some gap => 'n' :: 'e' :: 'w' :: gap.text

def text (s : Site) : List Char :=
  s.front ++ (s.call.wrapper.constructorName ++ (s.beforeOpening.text ++
    '(' :: (s.afterOpening.text ++ (s.call.inner ++ (s.beforeClosing.text ++ [')'])))))

end Site

/-! ## Trees -/

mutual

/-- A value as it is written. -/
inductive Tree where
  | scalar (s : Scalar)
  | call (s : Site)
  | array (items : Items)
  | object (fields : Fields)

/-- Values with commas between them. A comma may follow the last. -/
inductive Items where
  | none (gap : Gap)
  | last (before : Gap) (v : Tree) (after : Gap)
  | more (before : Gap) (v : Tree) (after : Gap) (rest : Items)

/-- Keys and values with commas between them. A comma may follow the last. -/
inductive Fields where
  | none (gap : Gap)
  | last (before : Gap) (k : Key) (left right : Gap) (v : Tree) (after : Gap)
  | more (before : Gap) (k : Key) (left right : Gap) (v : Tree) (after : Gap) (rest : Fields)

end

mutual

/-- The text of a value. -/
def Tree.text : Tree → List Char
  | .scalar s => s.text
  | .call s => s.text
  | .array items => '[' :: (items.text ++ [']'])
  | .object fields => '{' :: (fields.text ++ ['}'])

/-- The text of a list of values, as it was typed. -/
def Items.text : Items → List Char
  | .none gap => gap.text
  | .last before v after => before.text ++ (v.text ++ after.text)
  | .more before v after rest => before.text ++ (v.text ++ (after.text ++ ',' :: rest.text))

def Fields.text : Fields → List Char
  | .none gap => gap.text
  | .last before k left right v after =>
    before.text ++ (k.text ++ (left.text ++ ':' :: (right.text ++ (v.text ++ after.text))))
  | .more before k left right v after rest =>
    before.text ++ (k.text ++ (left.text ++ ':' ::
      (right.text ++ (v.text ++ (after.text ++ ',' :: rest.text)))))

end

mutual

/-- Whether a text is that of a value in which some calls are replaced. -/
def Tree.Written : Tree → List Char → Prop
  | .scalar s, cs => cs = s.text
  | .call s, cs => cs = s.text ∨ cs ∈ s.call.literal?
  | .array items, cs => ∃ inside, items.Written inside ∧ cs = '[' :: (inside ++ [']'])
  | .object fields, cs => ∃ inside, fields.Written inside ∧ cs = '{' :: (inside ++ ['}'])

/-- Whether a text is that of a list of values in which some calls are replaced. -/
def Items.Written : Items → List Char → Prop
  | .none gap, cs => cs = gap.text
  | .last before v after, cs => ∃ body, v.Written body ∧ cs = before.text ++ (body ++ after.text)
  | .more before v after rest, cs => ∃ body tail, v.Written body ∧ rest.Written tail ∧
    cs = before.text ++ (body ++ (after.text ++ ',' :: tail))

def Fields.Written : Fields → List Char → Prop
  | .none gap, cs => cs = gap.text
  | .last before k left right v after, cs => ∃ body, v.Written body ∧
    cs = before.text ++ (k.text ++ (left.text ++ ':' :: (right.text ++ (body ++ after.text))))
  | .more before k left right v after rest, cs => ∃ body tail, v.Written body ∧
    rest.Written tail ∧ cs = before.text ++ (k.text ++ (left.text ++ ':' ::
      (right.text ++ (body ++ (after.text ++ ',' :: tail)))))

end

mutual

/-- A draft may be left as it was typed. -/
theorem Tree.written_text (v : Tree) : v.Written v.text :=
  match v with
  | .scalar _ => rfl
  | .call _ => .inl rfl
  | .array items => ⟨items.text, items.written_text, rfl⟩
  | .object fields => ⟨fields.text, fields.written_text, rfl⟩

theorem Items.written_text (items : Items) : items.Written items.text :=
  match items with
  | .none _ => rfl
  | .last _ v _ => ⟨v.text, v.written_text, rfl⟩
  | .more _ v _ rest => ⟨v.text, rest.text, v.written_text, rest.written_text, rfl⟩

theorem Fields.written_text (fields : Fields) : fields.Written fields.text :=
  match fields with
  | .none _ => rfl
  | .last _ _ _ _ v _ => ⟨v.text, v.written_text, rfl⟩
  | .more _ _ _ _ v _ rest => ⟨v.text, rest.text, v.written_text, rest.written_text, rfl⟩

end

/-! ## What a draft looks like -/

/-- The name that a key is read as. -/
def nameOf (k : Key) : String :=
  match key k.text with
  | .ok (name, _) => name
  | .error _ => ""

/-- The text of a key is read as its name. -/
theorem key_eq_nameOf (k : Key) : key k.text = .ok (nameOf k, []) := by
  obtain ⟨name, hread⟩ := k.read
  rw [nameOf, hread]

mutual

/-- A value as it is written, with a null in the place of every scalar and of every call. -/
def Tree.skeleton : Tree → Value
  | .scalar _ | .call _ => .null
  | .array items => .array items.skeletons
  | .object fields => .document (fields.skeleton [])

def Items.skeletons : Items → List Value
  | .none _ => []
  | .last _ v _ => [v.skeleton]
  | .more _ v _ rest => v.skeleton :: rest.skeletons

/-- The fields of an object after those in `read`. A key that is written again keeps its place. -/
def Fields.skeleton : Fields → Document → Document
  | .none _, read => read
  | .last _ k _ _ v _, read => read.insert (nameOf k) v.skeleton
  | .more _ k _ _ v _ rest, read => rest.skeleton (read.insert (nameOf k) v.skeleton)

end

/-! ## What keeps its place -/

/-- What a draft is made of, keys aside: scalars, with the blanks before them, and calls. -/
inductive Leaf where
  | scalar (before : Gap) (s : Scalar)
  | call (s : Site)

mutual

def Tree.leaves (before : Gap) : Tree → List Leaf
  | .scalar s => [.scalar before s]
  | .call s => [.call s]
  | .array items => items.leaves
  | .object fields => fields.leaves

def Items.leaves : Items → List Leaf
  | .none _ => []
  | .last before v _ => v.leaves before
  | .more before v _ rest => v.leaves before ++ rest.leaves

def Fields.leaves : Fields → List Leaf
  | .none _ => []
  | .last _ _ _ right v _ => v.leaves right
  | .more _ _ _ right v _ rest => v.leaves right ++ rest.leaves

end

/-- A text that is not blank and has no character with which a value, an item or a field begins or
    ends. -/
structure Bare (cs : List Char) : Prop where
  not_blank : ∃ c ∈ cs, isBlank c = false
  plain : ∀ c ∈ cs, isInert c = true ∧ c ≠ ','

/-- Whether an amount is not an integer with a closing parenthesis after it. -/
def Amount.Uncut : Amount → Prop
  | whole _ => True
  | quoted x => ∀ digits rest, Wrapper.integer? x.content = some (digits, rest) →
    (trimStart rest).head? ≠ some ')'

/-- Whether what a rule puts in the place of a call is one value at most. Only the payloads that
    are put there without quotes matter. -/
def Call.Sound : Call → Prop
  | numberLong n | numberInt n => n.Uncut
  | numberDecimal x => x.content ≠ [] → Bare x.content
  | _ => True

/-- Whether a leaf stays in its place: no wide blank is before a regular expression, and a call is
    replaced by one value at most. -/
def Leaf.Sound : Leaf → Prop
  | scalar before s => s.text.head? = some '/' → ∀ c ∈ before.text, isAsciiBlank c = true
  | call s => s.call.Sound

end Draft

end ShellQuery
