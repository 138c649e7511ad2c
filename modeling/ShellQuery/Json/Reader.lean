/-
  ShellQuery.Json.Reader

  Readers of the values that are wanted. A value of another type is a fault; where it is a scalar,
  its own faults come before that.
-/
import ShellQuery.Json.Amount
import ShellQuery.Json.Skipped

namespace ShellQuery.Json

open Text

namespace Reader

/-! ## Scalars -/

/-- What a text begins with. A scalar is read to its end, of a list or a map nothing is read. -/
def found : List Char → Except Fault (Found × List Char)
  | [] => faultAt .endInValue []
  | c :: cs =>
    let number (negative : Bool) (cs : List Char) : Except Fault (Found × List Char) := do
      let (n, rest) ← numeral .endInValue negative cs
      .ok (← amount n rest, rest)
    if c = '"' then do
      let (s, rest) ← stringBody cs
      .ok (.string s, rest)
    else if c = 'n' then do .ok (.null, ← dropName ['u', 'l', 'l'] cs)
    else if c = 't' then do .ok (.bool true, ← dropName ['r', 'u', 'e'] cs)
    else if c = 'f' then do .ok (.bool false, ← dropName ['a', 'l', 's', 'e'] cs)
    else if c = '-' then number true cs
    else if isAsciiDigit c then number false (c :: cs)
    else if c = '[' then .ok (.list, c :: cs)
    else if c = '{' then .ok (.map, c :: cs)
    else faultAfter .noValue (c :: cs)

/-- The fault of a value that is not what is wanted. -/
def mismatch {α : Type} (wanted : Wanted) (cs : List Char) : Except Fault α := do
  let (f, rest) ← found cs
  faultAt (.wrongType f wanted) rest

/-- A truth value. -/
def bool : Reader Bool := fun cs => do
  match ← found (skipSpace cs) with
  | (.bool b, rest) => .ok (b, rest)
  | (f, rest) => faultAt (.wrongType f .bool) rest

/-- A text. -/
def string : Reader String := fun cs => do
  match ← found (skipSpace cs) with
  | (.string s, rest) => .ok (s, rest)
  | (f, rest) => faultAt (.wrongType f .string) rest

/-- An integer from `low` on and below `high`. -/
def integer (wanted : Wanted) (low high : Int) : Reader Int := fun cs => do
  match ← found (skipSpace cs) with
  | (.integer n, rest) =>
    if low ≤ n ∧ n < high then .ok (n, rest) else faultAt (.wrongValue (.integer n) wanted) rest
  | (f, rest) => faultAt (.wrongType f wanted) rest

/-- A natural number below `2 ^ 64`. -/
def unsigned64 : Reader Nat := do
  return (← integer .unsigned64 0 (2 ^ (64 : Nat))).toNat

/-- An integer of 64 bits. -/
def signed64 : Reader Int64 := do
  return .ofInt (← integer .signed64 (-2 ^ (63 : Nat)) (2 ^ (63 : Nat)))

/-- Null, or what another reader makes of a value. -/
def optional {α : Type} (read : Reader α) : Reader (Option α) := fun cs =>
  match skipSpace cs with
  | 'n' :: cs => do .ok (none, ← dropName ['u', 'l', 'l'] cs)
  | cs => (some <$> read) cs

/-- A value that nobody asks for. -/
def ignored : Reader Unit := fun cs => do
  .ok ((), ← skipValue cs)

/-! ## Lists -/

/-- Goes on to the next item of a list, if there is one. -/
def nextItem (first : Bool) : Reader Bool := fun cs =>
  match skipSpace cs with
  | [] => faultAt .endInList []
  | c :: cs =>
    if c = ']' then .ok (false, c :: cs)
    else if first then .ok (true, c :: cs)
    else if c ≠ ',' then faultAfter .noListSeparator (c :: cs)
    else match skipSpace cs with
      | [] => faultAt .endInValue []
      | d :: cs => if d = ']' then faultAfter .trailingComma (d :: cs) else .ok (true, d :: cs)

/-- Reads the end of a list from which nothing more is wanted. -/
def endOfList : Reader Unit := fun cs =>
  match skipSpace cs with
  | [] => faultAt .endInList []
  | c :: cs =>
    if c = ']' then .ok ((), cs)
    else if c ≠ ',' then faultAfter .trailingCharacters (c :: cs)
    else match skipSpace cs with
      | [] => faultAt .trailingCharacters []
      | d :: cs =>
        faultAfter (if d = ']' then .trailingComma else .trailingCharacters) (d :: cs)

/-! ## Maps -/

/-- Reads the key of the next member of a map, if there is one. -/
def nextKey (first : Bool) : Reader (Option String) := fun cs =>
  let key (cs : List Char) : Except Fault (Option String × List Char) := do
    let (k, rest) ← stringBody cs
    .ok (some k, rest)
  match skipSpace cs with
  | [] => faultAt .endInMap []
  | c :: cs =>
    if c = '}' then .ok (none, c :: cs)
    else if first then if c = '"' then key cs else faultAfter .keyNotString (c :: cs)
    else if c ≠ ',' then faultAfter .noMapSeparator (c :: cs)
    else match skipSpace cs with
      | [] => faultAt .endInValue []
      | d :: cs =>
        if d = '"' then key cs
        else faultAfter (if d = '}' then .trailingComma else .keyNotString) (d :: cs)

/-- Reads the colon between a key and its value. -/
def colon : Reader Unit := fun cs =>
  match skipSpace cs with
  | [] => faultAt .endInMap []
  | c :: cs => if c = ':' then .ok ((), cs) else faultAfter .noColon (c :: cs)

/-- Reads the members of a map up to its closing brace. `step` reads what follows a key, with what
    came of the members before. `fuel` bounds the members. -/
def members {σ : Type} (step : σ → String → Reader σ) (fuel : Nat) (first : Bool) (s : σ) :
    Reader σ :=
  match fuel with
  | 0 => fun cs => faultAt .endInMap cs
  | fuel + 1 => do
    match ← nextKey first with
    | none => return s
    | some k =>
      let s ← step s k
      members step fuel false s

/-- Reads a map after its opening brace, up to its closing one. -/
def mapBody {σ : Type} (step : σ → String → Reader σ) (s : σ) : Reader σ :=
  fun cs => members step (cs.length + 1) true s cs

/-- Reads a map, from value to value. -/
def map {σ : Type} (step : σ → String → Reader σ) (s : σ) : Reader σ := fun cs =>
  match skipSpace cs with
  | '{' :: cs => do
    let (s, rest) ← mapBody (fun s k => do colon; step s k) s cs
    .ok (s, rest.tail)
  | cs => mismatch .map cs

/-! ## Whole texts -/

/-- Reads a value that takes up the whole text. -/
def ofWhole {α : Type} (read : Reader α) (cs : List Char) : Except Fault α := do
  let (a, rest) ← read cs
  match skipSpace rest with
  | [] => .ok a
  | rest => faultAfter .trailingCharacters rest

end Reader

end ShellQuery.Json
