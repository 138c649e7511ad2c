/-
  ShellQuery.Value

  The values of the document store: scalars, arrays, and documents whose fields keep the order in
  which they were first written. A document is the list of its fields; `Document.insert` and
  `Document.erase` keep its keys distinct.
-/
import ShellQuery.Number.Binary64

namespace ShellQuery

/-- A value of the document store. -/
inductive Value where
  | null
  | bool (b : Bool)
  | int32 (n : Int32)
  | int64 (n : Int64)
  | double (x : Binary64)
  | string (s : String)
  /-- A moment, in milliseconds since the first of January 1970. -/
  | date (millis : Int64)
  | regex (pattern options : String)
  | array (items : List Value)
  | document (fields : List (String × Value))
deriving Inhabited, Repr

/-- The fields of a document, in order. -/
abbrev Document : Type := List (String × Value)

namespace Document

/-- The value at a key. -/
def get? (key : String) : Document → Option Value
  | [] => none
  | (k, v) :: rest => if k = key then some v else get? key rest

/-- Sets a key: in place where the document has it, else at the end. -/
def insert (key : String) (value : Value) : Document → Document
  | [] => [(key, value)]
  | (k, v) :: rest =>
    if k = key then (k, value) :: rest else (k, v) :: insert key value rest

/-- Drops a key and keeps the order of the others. -/
def erase (key : String) : Document → Document
  | [] => []
  | (k, v) :: rest => if k = key then rest else (k, v) :: erase key rest

/-- Takes a field out of a document: its value, and the other fields in order. -/
def take? (key : String) : Document → Option (Value × Document)
  | [] => none
  | (k, v) :: rest =>
    if k = key then some (v, rest)
    else (take? key rest).map fun (taken, left) => (taken, (k, v) :: left)

/-- The keys, in order. -/
def keys (d : Document) : List String :=
  d.map Prod.fst

/-- Sets every key of the second document in the first, in the order of the second. -/
def merge (target extra : Document) : Document :=
  extra.foldl (fun d (k, v) => d.insert k v) target

/-! ## Reading back what was set -/

theorem get?_insert_self (key : String) (value : Value) (d : Document) :
    (d.insert key value).get? key = some value := by
  induction d with
  | nil => simp [insert, get?]
  | cons field rest ih =>
    obtain ⟨k, v⟩ := field
    by_cases h : k = key
    · simp [insert, get?, h]
    · simp [insert, get?, h, ih]

theorem get?_insert_of_ne {key other : String} (value : Value) (d : Document) (h : other ≠ key) :
    (d.insert key value).get? other = d.get? other := by
  induction d with
  | nil => simp [insert, get?, Ne.symm h]
  | cons field rest ih =>
    obtain ⟨k, v⟩ := field
    by_cases hk : k = key
    · subst hk
      simp [insert, get?, Ne.symm h]
    · by_cases ho : k = other
      · simp only [insert, if_neg hk, get?, if_pos ho]
      · simp only [insert, if_neg hk, get?, if_neg ho, ih]

/-- Setting a key keeps the keys in their order and puts a new one at the end. -/
theorem keys_insert (key : String) (value : Value) (d : Document) :
    (d.insert key value).keys = if key ∈ d.keys then d.keys else d.keys ++ [key] := by
  induction d with
  | nil => simp [insert, keys]
  | cons field rest ih =>
    obtain ⟨k, v⟩ := field
    by_cases h : k = key
    · simp [insert, keys, h]
    · simp only [keys] at ih
      by_cases hm : key ∈ List.map Prod.fst rest
      · simp [insert, keys, h, ih, hm]
      · simp [insert, keys, h, ih, hm, Ne.symm h]

end Document

namespace Value

/-- The 32-bit integer where it fits, else the 64-bit one. -/
def ofInt64 (n : Int64) : Value :=
  if -2 ^ (31 : Nat) ≤ n.toInt ∧ n.toInt < 2 ^ (31 : Nat) then .int32 (.ofInt n.toInt) else .int64 n

/-- The integer that a number is, if it is one. A double beyond the 64-bit range counts as the
    nearest 64-bit integer. -/
def toInt64? : Value → Option Int64
  | .int32 n => some (.ofInt n.toInt)
  | .int64 n => some n
  | .double x =>
    if x.isIntegral then some (.ofInt (max (-2 ^ (63 : Nat)) (min (2 ^ (63 : Nat) - 1) x.truncate))) else none
  | _ => none

end Value

end ShellQuery
